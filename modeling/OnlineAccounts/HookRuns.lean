import OnlineAccounts.AccountsHook

/-! # What a run of the second hook program leaves behind

The documents of a manifest carry the mark of the program and the application id of the manifest
as their profile (`allOf_writeFiles`), so the next run finds the manifest that they belong to
(`not_isStale`).  The removal of stale files takes exactly the listed ones that can be removed
(`removeStaleFiles_content_cases`).  The loop over the manifests then applies the changes of
those that have no valid marker, in their order, and marks those that are completely processed
(`run_cases`). -/

namespace OnlineAccounts.AccountsHook

open Accounts Markup Writes

/-! ### The profile of what is written -/

theorem profile_createDocument (env : Surroundings) (root : Element) :
    profile (ManifestFile.createDocument env root) = root.childText "profile" := rfl

theorem createdByUs_createDocument (env : Environment) (root : Element) :
    createdByUs env (ManifestFile.createDocument env.toSurroundings root) = true := by
  have hmark : isCreatorMark env (.comment ("this file is auto-generated by " ++
      env.click.applicationName ++ "; do not modify")) = true := by
    refine decide_eq_true ⟨"this file is auto-generated by ".toList, " do not modify".toList, ?_⟩
    simp [String.toList_append]
  unfold createdByUs ManifestFile.createDocument
  simp only [List.any_cons, hmark, Bool.true_or, Bool.or_true]

/-- A document of the program with the given profile. -/
def IsMarked (env : Environment) (appId : String) (nodes : List Node) : Prop :=
  profile nodes = appId ∧ createdByUs env nodes = true

namespace ManifestFile

variable (env : Environment) (m : ManifestFile)

/-- The profile element stands behind elements with other tags. -/
theorem isMarked_createDocument {root : Element} (before after : List Node)
    (hroot : root.children = before ++ m.addProfile :: after)
    (hbefore : firstElement "profile" before = none) :
    IsMarked env m.appId (createDocument env.toSurroundings root) := by
  have hprofile : firstElement "profile" (m.addProfile :: after) =
      some (Element.ofText "profile" m.appId) := rfl
  refine ⟨?_, createdByUs_createDocument env root⟩
  rw [profile_createDocument]
  unfold Element.childText Element.firstChildElement
  rw [hroot, firstElement_append, hbefore, Option.none_or, hprofile]
  simp

theorem isMarked_serviceDocument (json : QJsonObject) :
    IsMarked env m.appId (m.serviceDocument env.toSurroundings json) :=
  m.isMarked_createDocument env
    [textElement "type" m.shortAppId, textElement "provider" (json.value "provider").toString,
      textElement "name" (orDot (json.value "name").toString)]
    (m.addTranslations ++ addTemplate json) rfl rfl

theorem isMarked_providerDocument (name icon : String) :
    IsMarked env m.appId (m.providerDocument env.toSurroundings name icon) := by
  apply m.isMarked_createDocument env
    [textElement "name" name, textElement "icon" (m.iconPath env.toSurroundings icon)]
    (m.addTranslations ++ (addTemplate m.plugin ++ m.addPackageDir))
  · simp
  · rfl

theorem isMarked_applicationDocument :
    IsMarked env m.appId (m.applicationDocument env.toSurroundings) := by
  unfold applicationDocument
  apply m.isMarked_createDocument env []
  · simp only [List.append_assoc, List.singleton_append, List.nil_append]
    rfl
  · rfl

end ManifestFile

/-! ### The changes of a manifest -/

/-- What a manifest does to a file: its link is made anew, and any other file gets a document of
the manifest, unless writing fails. -/
def ChangeOf (env : Environment) (m : ManifestFile) (ok : Bool) (c : Change) : Prop :=
  c.1 = m.qmlDestination ∧ (c.2 = none ∨ ∃ target, c.2 = some (.link target)) ∨
    c.1.dir ≠ "qml-plugins" ∧
      ((∃ nodes, c.2 = some (.document nodes) ∧ IsMarked env m.appId nodes) ∨
        ok = false ∧ (c.2 = none ∨ c.2 = some (.document [])))

section

variable {env : Environment} {m : ManifestFile}

theorem ChangeOf.of_ok {c : Change} (h : ChangeOf env m true c) (ok : Bool) :
    ChangeOf env m ok c := by
  rcases h with hlink | ⟨hdir, hmarked | ⟨hok, -⟩⟩
  · exact Or.inl hlink
  · exact Or.inr ⟨hdir, Or.inl hmarked⟩
  · cases hok

/-- The changes are the manifest's own ones, and its documents are complete if all went well. -/
def AllOf (env : Environment) (m : ManifestFile) (result : List Change × Bool) : Prop :=
  ∀ c ∈ result.1, ChangeOf env m result.2 c

/-- Two parts, one after the other; nothing follows a failure. -/
theorem AllOf.append {first second : List Change × Bool} (h : AllOf env m first)
    (h' : AllOf env m second) : AllOf env m (first.1 ++ second.1, first.2 && second.2) := by
  obtain ⟨changes, ok⟩ := first
  obtain ⟨changes', ok'⟩ := second
  have hweaken (c : Change) {ok₁ ok₂ : Bool} (hc : ChangeOf env m ok₁ c)
      (hok : ok₂ = true → ok₁ = true) : ChangeOf env m ok₂ c := by
    cases ok₁ with
    | true => exact hc.of_ok ok₂
    | false =>
        cases ok₂ with
        | true => exact absurd (hok rfl) Bool.false_ne_true
        | false => exact hc
  intro c hc
  rcases List.mem_append.mp hc with hc | hc
  · exact hweaken c (h c hc) fun hok => (Bool.and_eq_true_iff.mp hok).1
  · exact hweaken c (h' c hc) fun hok => (Bool.and_eq_true_iff.mp hok).2

theorem allOf_nil (ok : Bool) : AllOf env m ([], ok) := fun _ hc => absurd hc List.not_mem_nil

theorem allOf_writeXmlFile (outcome : WriteOutcome) {nodes : List Node} {file : File}
    (hdir : file.dir ≠ "qml-plugins") (hnodes : IsMarked env m.appId nodes) :
    AllOf env m (ManifestFile.writeXmlFile outcome nodes file) := by
  intro c hc
  cases outcome with
  | notOpened => cases hc
  | notWritten removed =>
      cases removed with
      | true =>
          obtain rfl := List.mem_singleton.mp hc
          exact Or.inr ⟨hdir, Or.inr ⟨rfl, Or.inl rfl⟩⟩
      | false =>
          obtain rfl := List.mem_singleton.mp hc
          exact Or.inr ⟨hdir, Or.inr ⟨rfl, Or.inr rfl⟩⟩
  | written =>
      obtain rfl := List.mem_singleton.mp hc
      exact Or.inr ⟨hdir, Or.inl ⟨nodes, rfl, hnodes⟩⟩

theorem allOf_writeServiceFiles (outcomes : Outcomes) (services : List QJsonValue) (i : ℕ) :
    AllOf env m (m.writeServiceFiles env.toSurroundings outcomes i services) := by
  induction services generalizing i with
  | nil => exact allOf_nil true
  | cons v services ih =>
      have hfirst : AllOf env m (ManifestFile.writeXmlFile (outcomes.service i)
          (m.serviceDocument env.toSurroundings v.toObject)
          (m.serviceFile env.toSurroundings v.toObject)) :=
        allOf_writeXmlFile _ (show "services" ≠ "qml-plugins" by decide)
          (m.isMarked_serviceDocument env v.toObject)
      unfold ManifestFile.writeServiceFiles
      dsimp only
      split_ifs with hok
      · have hboth := hfirst.append (ih (i + 1))
        rw [hok, Bool.true_and] at hboth
        exact hboth
      · rw [Bool.not_eq_true] at hok
        unfold AllOf at hfirst
        rw [hok] at hfirst
        exact hfirst

theorem allOf_writeProviderFile (outcomes : Outcomes) :
    AllOf env m (m.writeProviderFile env.toSurroundings outcomes) := by
  unfold ManifestFile.writeProviderFile
  dsimp only
  split_ifs
  · exact allOf_nil false
  · exact allOf_nil false
  · exact allOf_writeXmlFile _ (show "providers" ≠ "qml-plugins" by decide)
      (m.isMarked_providerDocument env _ _)

variable (env m) in
theorem allOf_writePlugins (outcomes : Outcomes) :
    AllOf env m (m.writePlugins env.toSurroundings outcomes) := by
  have hunlinked (ok : Bool) :
      AllOf env m (if outcomes.unlinks then [(m.qmlDestination, none)] else [], ok) := by
    intro c hc
    dsimp only at hc
    split_ifs at hc
    · obtain rfl := List.mem_singleton.mp hc
      exact Or.inl ⟨rfl, Or.inl rfl⟩
    · cases hc
  have hlinked (target : String) :
      AllOf env m ([(m.qmlDestination, some (.link target))], true) := by
    intro c hc
    obtain rfl := List.mem_singleton.mp hc
    exact Or.inl ⟨rfl, Or.inr ⟨target, rfl⟩⟩
  unfold ManifestFile.writePlugins
  dsimp only
  generalize (if outcomes.unlinks then [(m.qmlDestination, none)] else []) = unlinked at hunlinked ⊢
  split_ifs
  · exact allOf_nil true
  · exact allOf_nil false
  · exact allOf_nil false
  · exact ((hunlinked true).append (hlinked _)).append (allOf_writeProviderFile outcomes)
  · exact hunlinked false

theorem allOf_writeFiles (outcomes : Outcomes) :
    AllOf env m (m.writeFiles env.toSurroundings outcomes) := by
  have hparts := (allOf_writeServiceFiles outcomes m.services 0).append
    (allOf_writePlugins env m outcomes)
  unfold ManifestFile.writeFiles
  dsimp only
  split_ifs with hok
  · have hok' := (Bool.and_eq_true_iff.mp hok).1
    have happlication : AllOf env m (ManifestFile.writeXmlFile outcomes.application
        (m.applicationDocument env.toSurroundings) m.applicationFile) :=
      allOf_writeXmlFile _ (show "applications" ≠ "qml-plugins" by decide)
        (m.isMarked_applicationDocument env)
    have hall := hparts.append happlication
    rw [hok', Bool.true_and] at hall
    exact hall
  · exact hparts

end

/-! ### The loop over the manifests -/

/-- The marker is valid. -/
def upToDate (processed : String → Option ℕ) (hook : HookFile) : Bool :=
  processed hook.fileName = some hook.lastModified

/-- The changes that a manifest makes when it is processed. -/
def changes (env : Environment) (hook : HookFile) : List Change :=
  let manifest := ManifestFile.ofHook env.toSurroundings hook
  if manifest.isValid then (manifest.writeFiles env.toSurroundings (env.outcomes hook.appId)).1
  else []

def MarkOutcome.isValid (hook : HookFile) : MarkOutcome → Bool
  | .notOpened => false
  | .timeNotSet now => now = hook.lastModified
  | .set => true

/-- When it is processed, everything goes well up to the marker. -/
def completes (env : Environment) (hook : HookFile) : Bool :=
  let manifest := ManifestFile.ofHook env.toSurroundings hook
  let outcomes := env.outcomes hook.appId
  manifest.isValid && (manifest.writeFiles env.toSurroundings outcomes).2 &&
    outcomes.mark.isValid hook

section

variable {env : Environment} {s : State} {hook : HookFile}

theorem process_of_upToDate (h : upToDate s.processed hook = true) : process env s hook = s :=
  if_pos (of_decide_eq_true h)

theorem setProcessed_other (outcome : MarkOutcome) (processed : String → Option ℕ) {name : String}
    (h : name ≠ hook.fileName) : setProcessed outcome hook processed name = processed name := by
  cases outcome with
  | notOpened => rfl
  | timeNotSet now => exact Function.update_of_ne h _ _
  | set => exact Function.update_of_ne h _ _

theorem upToDate_setProcessed (outcome : MarkOutcome) {processed : String → Option ℕ}
    (h : upToDate processed hook = false) :
    upToDate (setProcessed outcome hook processed) hook = outcome.isValid hook := by
  cases outcome with
  | notOpened => exact h
  | timeNotSet now => simp [upToDate, setProcessed, MarkOutcome.isValid]
  | set => simp [upToDate, setProcessed, MarkOutcome.isValid]

variable (env) in
/-- Processing a manifest that is not up to date. -/
theorem process_cases (h : upToDate s.processed hook = false) :
    (process env s hook).accounts = s.accounts.apply (changes env hook) ∧
      (process env s hook).database = s.database ∧
      (∀ name, name ≠ hook.fileName → (process env s hook).processed name = s.processed name) ∧
      upToDate (process env s hook).processed hook = completes env hook := by
  unfold process changes completes
  rw [if_neg (of_decide_eq_false h)]
  dsimp only
  by_cases hvalid : (ManifestFile.ofHook env.toSurroundings hook).isValid = true
  · rw [if_pos hvalid, if_pos hvalid, hvalid, Bool.true_and]
    split_ifs with hok
    · refine ⟨rfl, rfl, fun name hname => setProcessed_other _ _ hname, ?_⟩
      rw [hok, Bool.true_and]
      exact upToDate_setProcessed _ h
    · refine ⟨rfl, rfl, fun name _ => rfl, ?_⟩
      rw [Bool.not_eq_true] at hok
      rw [hok, Bool.false_and]
      exact h
  · rw [if_neg hvalid, if_neg hvalid]
    rw [Bool.not_eq_true] at hvalid
    rw [hvalid, Bool.false_and, Bool.false_and]
    exact ⟨rfl, rfl, fun name _ => rfl, h⟩

end

/-- The manifests that are going to be processed. -/
def pending (processed : String → Option ℕ) (hooks : List HookFile) : List HookFile :=
  hooks.filter fun hook => !upToDate processed hook

theorem AccountsDir.apply_append (d : AccountsDir) (cs cs' : List Change) :
    d.apply (cs ++ cs') = (d.apply cs).apply cs' := List.foldl_append

section

variable {env : Environment}

theorem pending_congr {processed processed' : String → Option ℕ} {hooks : List HookFile}
    (h : ∀ hook ∈ hooks, processed' hook.fileName = processed hook.fileName) :
    pending processed' hooks = pending processed hooks := by
  apply List.filter_congr
  intro hook hmem
  unfold upToDate
  rw [h hook hmem]

variable (env) in
theorem process_spec (s : State) (hook : HookFile) :
    (process env s hook).accounts =
        s.accounts.apply ((pending s.processed [hook]).flatMap (changes env)) ∧
      (process env s hook).database = s.database ∧
      (∀ name, name ≠ hook.fileName → (process env s hook).processed name = s.processed name) ∧
      upToDate (process env s hook).processed hook =
        (upToDate s.processed hook || completes env hook) := by
  unfold pending
  cases hup : upToDate s.processed hook with
  | true =>
      rw [process_of_upToDate hup, List.filter_cons_of_neg (by simp [hup])]
      exact ⟨rfl, rfl, fun name _ => rfl, hup⟩
  | false =>
      obtain ⟨haccounts, hdatabase, hnames, hmark⟩ := process_cases env hup
      rw [List.filter_cons_of_pos (by simp [hup]), List.filter_nil, List.flatMap_singleton]
      exact ⟨haccounts, hdatabase, hnames, hmark⟩

variable (env) in
/-- The loop applies the changes of the pending manifests and marks the complete ones. -/
theorem processAll (hooks : List HookFile) (hnodup : (hooks.map HookFile.fileName).Nodup)
    (s : State) :
    (hooks.foldl (process env) s).accounts =
        s.accounts.apply ((pending s.processed hooks).flatMap (changes env)) ∧
      (hooks.foldl (process env) s).database = s.database ∧
      (∀ name ∉ hooks.map HookFile.fileName,
        (hooks.foldl (process env) s).processed name = s.processed name) ∧
      ∀ hook ∈ hooks, upToDate (hooks.foldl (process env) s).processed hook =
        (upToDate s.processed hook || completes env hook) := by
  induction hooks generalizing s with
  | nil => exact ⟨rfl, rfl, fun name _ => rfl, fun hook hmem => absurd hmem List.not_mem_nil⟩
  | cons hook hooks ih =>
      rw [List.map_cons, List.nodup_cons] at hnodup
      obtain ⟨hfresh, hnodup⟩ := hnodup
      have hother : ∀ hook' ∈ hooks, hook'.fileName ≠ hook.fileName := by
        intro hook' hmem he
        exact hfresh (he ▸ List.mem_map_of_mem hmem)
      obtain ⟨haccounts', hdatabase', hnames', hmark'⟩ := process_spec env s hook
      obtain ⟨haccounts, hdatabase, hnames, hmarks⟩ := ih hnodup (process env s hook)
      rw [List.foldl_cons]
      refine ⟨?_, hdatabase.trans hdatabase', ?_, ?_⟩
      · have hpending : pending s.processed (hook :: hooks) =
            pending s.processed [hook] ++ pending s.processed hooks :=
          List.filter_append [hook] hooks
        rw [haccounts, haccounts', ← AccountsDir.apply_append, hpending, List.flatMap_append,
          pending_congr fun hook' hmem => hnames' _ (hother hook' hmem)]
      · intro name hname
        rw [List.map_cons, List.mem_cons, not_or] at hname
        exact (hnames name hname.2).trans (hnames' name hname.1)
      · intro hook' hmem
        rcases List.mem_cons.mp hmem with rfl | hmem
        · rw [← hmark']
          unfold upToDate
          rw [hnames _ hfresh]
        · rw [hmarks hook' hmem]
          unfold upToDate
          rw [hnames' _ (hother hook' hmem)]

end

/-! ### Stale files -/

/-- A file of the given type that is listed and stale. -/
structure StaleFile (env : Environment) (hooksDirIn : HooksDir) (content : File → Option Content)
    (fileType : FileType) (name : String) : Prop where
  plain : '/' ∉ name.toList
  readable : env.readable ⟨fileType.dir, name⟩ = true
  accepted : Wildcard.accepts ("*." ++ fileType.name) name = true
  stale : ∃ c, content ⟨fileType.dir, name⟩ = some c ∧ isStale env hooksDirIn c.nodes = true

/-- A file that the program is going to remove. -/
def Removed (env : Environment) (hooksDirIn : HooksDir) (content : File → Option Content)
    (file : File) : Prop :=
  env.removes file = true ∧
    ∃ fileType : FileType, file.dir = fileType.dir ∧
      StaleFile env hooksDirIn content fileType file.name

theorem FileType.dir_injective : Function.Injective FileType.dir := by
  intro a b h
  cases a <;> cases b <;> first | rfl | exact absurd h (by decide)

theorem FileType.dir_ne (fileType : FileType) : fileType.dir ≠ "qml-plugins" := by
  cases fileType <;> decide

section

variable {env : Environment} {hooksDirIn : HooksDir}

theorem isStale_nil : isStale env hooksDirIn [] = false := rfl

/-- The loop over the listed names meets the stale files of its type. -/
theorem staleFile_iff {d : AccountsDir} {fileType : FileType} {name : String} :
    StaleFile env hooksDirIn d.content fileType name ↔ name ∈ entryInfoList env d fileType ∧
      isStale env hooksDirIn (((d.content ⟨fileType.dir, name⟩).map Content.nodes).getD []) =
        true := by
  unfold entryInfoList
  rw [List.mem_filter, d.listed, Bool.and_eq_true]
  constructor
  · rintro ⟨hplain, hreadable, haccepted, c, hc, hstale⟩
    rw [hc]
    exact ⟨⟨⟨hplain, rfl⟩, hreadable, haccepted⟩, hstale⟩
  · rintro ⟨⟨⟨hplain, -⟩, hreadable, haccepted⟩, hstale⟩
    refine ⟨hplain, hreadable, haccepted, ?_⟩
    cases hc : d.content ⟨fileType.dir, name⟩ with
    | none =>
        rw [hc] at hstale
        exact absurd (hstale.symm.trans isStale_nil) (by decide)
    | some c =>
        rw [hc] at hstale
        exact ⟨c, rfl, hstale⟩

/-! The accounts are changed without changing any file. -/

theorem disableOn_accounts (serviceId provider profile : String) (s : State) (id : ℕ) :
    (disableOn env serviceId provider profile s id).accounts = s.accounts ∧
      (disableOn env serviceId provider profile s id).processed = s.processed := by
  unfold disableOn
  cases env.library.account s.database id with
  | none => exact ⟨rfl, rfl⟩
  | some account =>
      dsimp only
      split_ifs <;> exact ⟨rfl, rfl⟩

theorem removeAccount_accounts (providerName : String) (s : State) (id : ℕ) :
    (removeAccount env providerName s id).accounts = s.accounts ∧
      (removeAccount env providerName s id).processed = s.processed := by
  unfold removeAccount
  cases env.library.account s.database id with
  | none => exact ⟨rfl, rfl⟩
  | some account =>
      dsimp only
      split_ifs <;> exact ⟨rfl, rfl⟩

theorem foldl_accounts {f : State → ℕ → State}
    (hf : ∀ s id, (f s id).accounts = s.accounts ∧ (f s id).processed = s.processed)
    (ids : List ℕ) (s : State) :
    (ids.foldl f s).accounts = s.accounts ∧ (ids.foldl f s).processed = s.processed := by
  induction ids generalizing s with
  | nil => exact ⟨rfl, rfl⟩
  | cons id ids ih =>
      obtain ⟨haccounts, hprocessed⟩ := ih (f s id)
      obtain ⟨haccounts', hprocessed'⟩ := hf s id
      exact ⟨haccounts.trans haccounts', hprocessed.trans hprocessed'⟩

theorem disableService_accounts (serviceId profile : String) (s : State) :
    (disableService env serviceId profile s).accounts = s.accounts ∧
      (disableService env serviceId profile s).processed = s.processed := by
  unfold disableService
  cases env.service serviceId (s.accounts.content ⟨"services", serviceId ++ ".service"⟩) with
  | none => exact ⟨rfl, rfl⟩
  | some provider => exact foldl_accounts (disableOn_accounts serviceId provider profile) _ s

theorem removeStaleAccounts_accounts (providerName : String) (s : State) :
    (removeStaleAccounts env providerName s).accounts = s.accounts ∧
      (removeStaleAccounts env providerName s).processed = s.processed :=
  foldl_accounts (removeAccount_accounts providerName) _ s

/-- What happens to the accounts when a stale file is met. -/
def forget (env : Environment) (fileType : FileType) (name profile : String) (s : State) : State :=
  match fileType with
  | .service => disableService env (completeBaseName name) profile s
  | .provider => removeStaleAccounts env (completeBaseName name) s
  | .application => s

variable (env) in
theorem forget_accounts (fileType : FileType) (name profile : String) (s : State) :
    (forget env fileType name profile s).accounts = s.accounts ∧
      (forget env fileType name profile s).processed = s.processed := by
  cases fileType with
  | service => exact disableService_accounts _ _ s
  | provider => exact removeStaleAccounts_accounts _ s
  | application => exact ⟨rfl, rfl⟩

/-- The nodes of a file; none if there is no such file. -/
def nodesAt (content : File → Option Content) (file : File) : List Node :=
  ((content file).map Content.nodes).getD []

/-- One round of the loop: a stale file is forgotten, and removed if that is possible. -/
theorem removeStaleFile_cases (fileType : FileType) (s : State) (name : String) :
    let nodes := nodesAt s.accounts.content ⟨fileType.dir, name⟩
    let t := forget env fileType name (profile nodes) s
    removeStaleFile env hooksDirIn fileType s name =
      if isStale env hooksDirIn nodes = true then
        if env.removes ⟨fileType.dir, name⟩ = true then
          { t with accounts := t.accounts.change (⟨fileType.dir, name⟩, none) }
        else t
      else s := by
  cases fileType <;> rfl

theorem removeStaleFile_processed (fileType : FileType) (s : State) (name : String) :
    (removeStaleFile env hooksDirIn fileType s name).processed = s.processed := by
  rw [removeStaleFile_cases]
  split_ifs
  · exact (forget_accounts env fileType name _ s).2
  · exact (forget_accounts env fileType name _ s).2
  · rfl

/-- The program is going to remove the file when it meets it. -/
def goes (env : Environment) (hooksDirIn : HooksDir) (content : File → Option Content)
    (file : File) : Bool :=
  env.removes file && isStale env hooksDirIn (nodesAt content file)

variable (env hooksDirIn) in
theorem removeStaleFile_content (fileType : FileType) (s : State) (name : String) (file : File) :
    (removeStaleFile env hooksDirIn fileType s name).accounts.content file =
      if file = ⟨fileType.dir, name⟩ ∧ goes env hooksDirIn s.accounts.content file = true then none
      else s.accounts.content file := by
  have hforget (profile : String) := (forget_accounts env fileType name profile s).1
  rw [removeStaleFile_cases]
  by_cases hfile : file = ⟨fileType.dir, name⟩
  · subst hfile
    by_cases hstale : isStale env hooksDirIn (nodesAt s.accounts.content ⟨fileType.dir, name⟩) = true
    · by_cases hremoves : env.removes ⟨fileType.dir, name⟩ = true
      · rw [if_pos hstale, if_pos hremoves, if_pos ⟨rfl, Bool.and_eq_true_iff.mpr ⟨hremoves, hstale⟩⟩]
        exact Function.update_self _ _ _
      · rw [if_pos hstale, if_neg hremoves, hforget, if_neg]
        exact fun h => hremoves (Bool.and_eq_true_iff.mp h.2).1
    · rw [if_neg hstale, if_neg]
      exact fun h => hstale (Bool.and_eq_true_iff.mp h.2).2
  · have hother : ¬ (file = ⟨fileType.dir, name⟩ ∧
        goes env hooksDirIn s.accounts.content file = true) := fun h => hfile h.1
    rw [if_neg hother]
    split_ifs
    · rw [AccountsDir.change_content, Function.update_of_ne hfile, hforget]
    · rw [hforget]
    · rfl

theorem foldl_removeStaleFile_content (fileType : FileType) (names : List String) (s : State)
    (file : File) :
    (names.foldl (removeStaleFile env hooksDirIn fileType) s).accounts.content file =
      if (file.dir = fileType.dir ∧ file.name ∈ names) ∧
          goes env hooksDirIn s.accounts.content file = true then none
      else s.accounts.content file := by
  induction names generalizing s with
  | nil => simp
  | cons name names ih =>
      have hround := removeStaleFile_content env hooksDirIn fileType s
        name file
      rw [List.foldl_cons, ih]
      by_cases hfirst : file = ⟨fileType.dir, name⟩ ∧ goes env hooksDirIn s.accounts.content file = true
      · rw [if_pos hfirst] at hround
        rw [hround, ite_self, if_pos]
        obtain ⟨rfl, hgoes⟩ := hfirst
        exact ⟨⟨rfl, List.mem_cons_self⟩, hgoes⟩
      · rw [if_neg hfirst] at hround
        have hgoes : goes env hooksDirIn (removeStaleFile env hooksDirIn fileType s
            name).accounts.content file = goes env hooksDirIn s.accounts.content file := by
          unfold goes nodesAt
          rw [hround]
        rw [hround, hgoes]
        apply if_congr _ rfl rfl
        constructor
        · exact fun h => ⟨⟨h.1.1, List.mem_cons_of_mem _ h.1.2⟩, h.2⟩
        · rintro ⟨⟨hdir, hmem⟩, hgoes⟩
          refine ⟨⟨hdir, (List.mem_cons.mp hmem).resolve_left ?_⟩, hgoes⟩
          intro hname
          exact hfirst ⟨File.ext hdir hname, hgoes⟩

variable (env hooksDirIn) in
open Classical in
theorem removeStaleFilesOf_content (fileType : FileType) (s : State) (file : File) :
    (removeStaleFilesOf env hooksDirIn s fileType).accounts.content file =
      if env.removes file = true ∧ file.dir = fileType.dir ∧
          StaleFile env hooksDirIn s.accounts.content fileType file.name then none
      else s.accounts.content file := by
  unfold removeStaleFilesOf
  rw [foldl_removeStaleFile_content]
  apply if_congr _ rfl rfl
  unfold goes
  rw [staleFile_iff, Bool.and_eq_true]
  constructor
  · rintro ⟨⟨hdir, hname⟩, hremoves, hstale⟩
    refine ⟨hremoves, hdir, hname, ?_⟩
    rw [← hdir]
    exact hstale
  · rintro ⟨hremoves, hdir, hname, hstale⟩
    rw [← hdir] at hstale
    exact ⟨⟨hdir, hname⟩, hremoves, hstale⟩

theorem StaleFile.congr {content content' : File → Option Content} {fileType : FileType}
    (file : File) (hdir : file.dir = fileType.dir) (h : content' file = content file) :
    StaleFile env hooksDirIn content' fileType file.name ↔
      StaleFile env hooksDirIn content fileType file.name := by
  have hfile : (⟨fileType.dir, file.name⟩ : File) = file := File.ext hdir.symm rfl
  constructor
  · rintro ⟨hplain, hreadable, haccepted, hstale⟩
    rw [hfile, h, ← hfile] at hstale
    exact ⟨hplain, hreadable, haccepted, hstale⟩
  · rintro ⟨hplain, hreadable, haccepted, hstale⟩
    rw [hfile, ← h, ← hfile] at hstale
    exact ⟨hplain, hreadable, haccepted, hstale⟩

open Classical in
theorem foldl_removeStaleFilesOf_content (types : List FileType) (s : State) (file : File) :
    (types.foldl (removeStaleFilesOf env hooksDirIn) s).accounts.content file =
      if env.removes file = true ∧ ∃ fileType ∈ types, file.dir = fileType.dir ∧
          StaleFile env hooksDirIn s.accounts.content fileType file.name then none
      else s.accounts.content file := by
  induction types generalizing s with
  | nil => simp
  | cons fileType types ih =>
      have hround := removeStaleFilesOf_content env hooksDirIn fileType s file
      rw [List.foldl_cons, ih]
      by_cases hfirst : env.removes file = true ∧ file.dir = fileType.dir ∧
          StaleFile env hooksDirIn s.accounts.content fileType file.name
      · rw [if_pos hfirst] at hround
        rw [hround, ite_self, if_pos]
        exact ⟨hfirst.1, fileType, List.mem_cons_self, hfirst.2⟩
      · rw [if_neg hfirst] at hround
        rw [hround]
        apply if_congr _ rfl rfl
        constructor
        · rintro ⟨hremoves, fileType', hmem, hdir, hstale⟩
          exact ⟨hremoves, fileType', List.mem_cons_of_mem _ hmem, hdir,
            (StaleFile.congr file hdir hround).mp hstale⟩
        · rintro ⟨hremoves, fileType', hmem, hdir, hstale⟩
          rcases List.mem_cons.mp hmem with rfl | hmem
          · exact absurd ⟨hremoves, hdir, hstale⟩ hfirst
          · exact ⟨hremoves, fileType', hmem, hdir, (StaleFile.congr file hdir hround).mpr hstale⟩

/-- A file of any type is looked at. -/
theorem removed_iff_exists_mem (content : File → Option Content) (file : File) :
    Removed env hooksDirIn content file ↔ env.removes file = true ∧
      ∃ fileType ∈ fileTypes, file.dir = fileType.dir ∧
        StaleFile env hooksDirIn content fileType file.name := by
  unfold Removed
  apply and_congr_right
  intro _
  constructor
  · rintro ⟨fileType, h⟩
    exact ⟨fileType, by cases fileType <;> simp [fileTypes], h⟩
  · rintro ⟨fileType, -, h⟩
    exact ⟨fileType, h⟩

variable (env hooksDirIn) in
theorem removeStaleFiles_content_cases (s : State) (file : File) :
    Removed env hooksDirIn s.accounts.content file ∧
        (removeStaleFiles env hooksDirIn s).accounts.content file = none ∨
      ¬ Removed env hooksDirIn s.accounts.content file ∧
        (removeStaleFiles env hooksDirIn s).accounts.content file = s.accounts.content file := by
  classical
  unfold removeStaleFiles
  rw [foldl_removeStaleFilesOf_content, removed_iff_exists_mem]
  by_cases h : env.removes file = true ∧ ∃ fileType ∈ fileTypes, file.dir = fileType.dir ∧
      StaleFile env hooksDirIn s.accounts.content fileType file.name
  · exact Or.inl ⟨h, if_pos h⟩
  · exact Or.inr ⟨h, if_neg h⟩

end

/-! ### A whole run -/

section

variable {env : Environment} {hooksDirIn : HooksDir}

theorem HooksDir.nodup_fileName (dir : HooksDir) : (dir.hooks.map HookFile.fileName).Nodup := by
  have hsingle := dir.single
  unfold List.Nodup at hsingle ⊢
  rw [List.pairwise_map] at hsingle ⊢
  apply hsingle.imp
  intro hook hook' hne he
  have hchars := congrArg String.toList he
  unfold HookFile.fileName at hchars
  rw [String.toList_append, String.toList_append, List.append_left_inj] at hchars
  exact hne (congrArg stripVersion (String.toList_inj.mp hchars))

theorem HooksDir.eq_of_shortAppId {dir : HooksDir} {hook hook' : HookFile} (h : hook ∈ dir.hooks)
    (h' : hook' ∈ dir.hooks) (he : hook.shortAppId = hook'.shortAppId) : hook = hook' :=
  List.inj_on_of_nodup_map dir.single h h' he

variable (env) in
/-- The manifest of a file that was published from it is found. -/
theorem not_isStale {hook : HookFile} (h : hook ∈ hooksDirIn.hooks)
    (hliteral : Wildcard.Literal hook.appId.toList) {nodes : List Node}
    (hnodes : profile nodes = hook.appId) : isStale env hooksDirIn nodes = false := by
  obtain ⟨version, hversion⟩ := exists_of_components (hooksDirIn.named hook h)
  have hshort : Wildcard.Literal (stripVersion hook.appId ++ "_").toList := by
    rw [String.toList_append]
    apply Wildcard.Literal.append
    · intro c hc
      rw [hversion] at hliteral
      exact hliteral c (List.mem_append_left _ hc)
    · decide
  have hname : hook.fileName =
      stripVersion hook.appId ++ "_" ++ String.ofList version ++ ".accounts" := by
    apply String.toList_inj.mp
    unfold HookFile.fileName
    simp [String.toList_append, hversion]
  have hpattern : hookFileName (profile nodes) =
      stripVersion hook.appId ++ "_" ++ "*" ++ ".accounts" := by
    apply String.toList_inj.mp
    unfold hookFileName
    simp [String.toList_append, hnodes]
  have haccepts : Wildcard.accepts (hookFileName (profile nodes)) hook.fileName = true := by
    rw [hname, hpattern]
    exact Wildcard.accepts_fill hshort (by decide) _
  have hfound : hooksDirIn.entryList.any (Wildcard.accepts (hookFileName (profile nodes))) = true := by
    rw [List.any_eq_true]
    exact ⟨hook.fileName, List.mem_append_left _ (List.mem_map_of_mem h), haccepts⟩
  unfold isStale
  rw [hfound, Bool.not_true, Bool.and_false]

theorem removeStaleFiles_processed (s : State) :
    (removeStaleFiles env hooksDirIn s).processed = s.processed := by
  have hnames (fileType : FileType) (names : List String) (s : State) :
      (names.foldl (removeStaleFile env hooksDirIn fileType) s).processed = s.processed := by
    induction names generalizing s with
    | nil => rfl
    | cons name names ih => exact (ih _).trans (removeStaleFile_processed fileType s name)
  have htypes (types : List FileType) (s : State) :
      (types.foldl (removeStaleFilesOf env hooksDirIn) s).processed = s.processed := by
    induction types generalizing s with
    | nil => rfl
    | cons fileType types ih => exact (ih _).trans (hnames fileType _ s)
  exact htypes fileTypes s

/-- No marker of a manifest is removed. -/
theorem removeStaleTimestampFiles_processed (s : State) {hook : HookFile}
    (h : hook ∈ hooksDirIn.hooks) :
    (removeStaleTimestampFiles env hooksDirIn s).processed hook.fileName =
      s.processed hook.fileName := by
  apply if_neg
  rintro ⟨hname, -⟩
  exact hname (List.mem_append_left _ (List.mem_map_of_mem h))

theorem run_cases (s : State) :
    (run env hooksDirIn s).accounts.content =
        applyWrites (removeStaleFiles env hooksDirIn s).accounts.content
          ((pending s.processed hooksDirIn.hooks).flatMap (changes env)) ∧
      (run env hooksDirIn s).database = (removeStaleFiles env hooksDirIn s).database ∧
      ∀ hook ∈ hooksDirIn.hooks, upToDate (run env hooksDirIn s).processed hook =
        (upToDate s.processed hook || completes env hook) := by
  let swept := removeStaleTimestampFiles env hooksDirIn (removeStaleFiles env hooksDirIn s)
  have hprocessed : ∀ hook ∈ hooksDirIn.hooks,
      swept.processed hook.fileName = s.processed hook.fileName := by
    intro hook h
    exact (removeStaleTimestampFiles_processed _ h).trans
      (congrFun (removeStaleFiles_processed s) hook.fileName)
  obtain ⟨haccounts, hdatabase, -, hmarks⟩ :=
    processAll env hooksDirIn.hooks hooksDirIn.nodup_fileName swept
  refine ⟨?_, hdatabase, ?_⟩
  · rw [pending_congr hprocessed] at haccounts
    exact (congrArg AccountsDir.content haccounts).trans (AccountsDir.apply_content _ _)
  · intro hook h
    refine (hmarks hook h).trans ?_
    unfold upToDate
    rw [hprocessed hook h]

theorem run_processed (s : State) {name : String}
    (h : name ∉ hooksDirIn.hooks.map HookFile.fileName) :
    (run env hooksDirIn s).processed name =
      (removeStaleTimestampFiles env hooksDirIn s).processed name := by
  obtain ⟨-, -, hnames, -⟩ := processAll env hooksDirIn.hooks hooksDirIn.nodup_fileName
    (removeStaleTimestampFiles env hooksDirIn (removeStaleFiles env hooksDirIn s))
  refine (hnames name h).trans ?_
  unfold removeStaleTimestampFiles
  rw [removeStaleFiles_processed]

theorem run_content (s : State) (file : File) :
    (run env hooksDirIn s).accounts.content file =
      (lastWrite ((pending s.processed hooksDirIn.hooks).flatMap (changes env)) file).getD
        ((removeStaleFiles env hooksDirIn s).accounts.content file) := by
  rw [(run_cases s).1, applyWrites_apply]

/-! ### Whose a change is -/

theorem changeOf_of_mem {hook : HookFile} {c : Change} (h : c ∈ changes env hook) :
    ∃ ok, (completes env hook = true → ok = true) ∧
      ChangeOf env (ManifestFile.ofHook env.toSurroundings hook) ok c := by
  unfold changes at h
  dsimp only at h
  split_ifs at h with hvalid
  · refine ⟨_, ?_, allOf_writeFiles _ c h⟩
    intro hcompletes
    unfold completes at hcompletes
    exact (Bool.and_eq_true_iff.mp (Bool.and_eq_true_iff.mp hcompletes).1).2
  · cases h

/-- No manifest makes the same change as another one that is completely processed. -/
theorem changes_distinct {hook other : HookFile} (h : hook ∈ hooksDirIn.hooks)
    (h' : other ∈ hooksDirIn.hooks) (hne : hook ≠ other) (hcompletes : completes env hook = true)
    {c : Change} (hc : c ∈ changes env hook) : c ∉ changes env other := by
  intro hc'
  obtain ⟨ok, hok, hchange⟩ := changeOf_of_mem hc
  obtain ⟨ok', -, hchange'⟩ := changeOf_of_mem hc'
  rw [hok hcompletes] at hchange
  rcases hchange with ⟨hlink, -⟩ | ⟨hdir, ⟨nodes, hnodes, hmarked⟩ | ⟨hfalse, -⟩⟩
  · rcases hchange' with ⟨hlink', -⟩ | ⟨hdir', -⟩
    · have hshort : hook.shortAppId = other.shortAppId :=
        congrArg File.name (hlink.symm.trans hlink')
      exact hne (HooksDir.eq_of_shortAppId h h' hshort)
    · exact hdir' (congrArg File.dir hlink)
  · rcases hchange' with ⟨hlink', -⟩ | ⟨-, ⟨nodes', hnodes', hmarked'⟩ | ⟨-, hnone | hempty⟩⟩
    · exact hdir (congrArg File.dir hlink')
    · obtain rfl : nodes = nodes' := by
        have he := hnodes.symm.trans hnodes'
        injection he with he
        injection he
      have happ : hook.appId = other.appId := hmarked.1.symm.trans hmarked'.1
      exact hne (HooksDir.eq_of_shortAppId h h' (congrArg stripVersion happ))
    · rw [hnone] at hnodes
      cases hnodes
    · rw [hempty] at hnodes
      injection hnodes with hnodes
      injection hnodes with hnodes
      rw [← hnodes] at hmarked
      exact absurd hmarked.2 Bool.false_ne_true
  · cases hfalse

end

theorem foreign_nil : ∀ name ∈ ([] : List String), ¬ ".accounts".toList <:+ name.toList :=
  fun _ hname => absurd hname List.not_mem_nil

/-- A manifest with services for the given providers. -/
def servicesFor (appId : String) (lastModified : ℕ) (providers : List String) : HookFile where
  appId := appId
  lastModified := lastModified
  document := .object (.cons "services" (.array (providers.foldr
    (fun provider rest => .cons (.object (.cons "provider" (.string provider) .nil)) rest) .nil)) .nil)

end OnlineAccounts.AccountsHook
