import OnlineAccounts.ClickHooks
import OnlineAccounts.HookRerun
import OnlineAccounts.ManifestSettings
import OnlineAccounts.Stamps

/-! # Runs of the first hook program

A run of `click-hooks/main.cpp` removes the published files whose hook file has gone, with the
accounts of the providers among them, and then publishes the hook files that are not up to date.
The program is run whenever a click package changes and at every start of a session.

A second run leaves all files as they are (`files_run_twice`).  It still deletes accounts if a
package has declared a profile that no hook file belongs to: the provider file of the package is
removed and published again by every run (`second_run_iff`).  Over the changes of the hook files a
published file is the current one, as long as hook files with the same destination and the same time
stamp are the same (`published_current`). -/

namespace OnlineAccounts.ClickHooks

open Accounts Markup Stamps LibAccountsFile

/-! ### The program -/

/-- What a whole run finds outside of the program. -/
structure RunEnvironment extends Environment where
  library : Library := .inMemory
  readable : String → Bool := fun _ => true
  /-- Whether a published file can be removed. -/
  removes : String → Bool := fun _ => true
  /-- Whether removing an account is stored. -/
  removesAccount : ℕ → Bool := fun _ => true

/-- The hooks directory. -/
structure HooksDir where
  hooks : List HookFile
  plain : ∀ hook ∈ hooks, '/' ∉ hook.fileName.toList

def filePath (env : Environment) (fileType name : String) : String :=
  env.localShare ++ "/accounts/" ++ fileType ++ "s/" ++ name

/-- `QFileInfo::fileName()`: what stands behind the last slash. -/
def fileName (path : String) : String :=
  String.ofList (path.toList.reverse.takeWhile (· ≠ '/')).reverse

theorem fileName_append (directory name : String) (h : '/' ∉ name.toList) :
    fileName (directory ++ "/" ++ name) = name := by
  have hname : ∀ c ∈ name.toList.reverse, decide (c ≠ '/') = true := by
    intro c hc
    refine decide_eq_true ?_
    rintro rfl
    exact h (List.mem_reverse.mp hc)
  have hpath : (directory ++ "/" ++ name).toList.reverse =
      name.toList.reverse ++ '/' :: directory.toList.reverse := by simp
  unfold fileName
  rw [hpath, List.takeWhile_append_of_pos hname]
  simp

theorem fileName_filePath (env : Environment) (fileType : String) {name : String}
    (h : '/' ∉ name.toList) : fileName (filePath env fileType name) = name := by
  have hpath : filePath env fileType name =
      env.localShare ++ "/accounts/" ++ fileType ++ "s" ++ "/" ++ name := by
    simp [filePath, String.append_assoc]
  rw [hpath, fileName_append _ _ h]

/-- What a run reads and changes: the files, and the accounts. -/
structure State (env : Environment) where
  files : Files
  /-- The names that the files have. -/
  names : List String
  known : ∀ fileType name, '/' ∉ name.toList → (files (filePath env fileType name)).isSome = true →
    name ∈ names
  database : Database

namespace State

variable {env : Environment}

def empty (env : Environment) (database : Database) : State env where
  files := fun _ => none
  names := []
  known := by simp
  database := database

/-- One file changes. -/
def change (s : State env) (path : String) (file? : Option File) : State env where
  files := Function.update s.files path file?
  names := fileName path :: s.names
  known := by
    intro fileType name hplain hfile
    by_cases hpath : filePath env fileType name = path
    · rw [← hpath, fileName_filePath env fileType hplain]
      exact List.mem_cons_self
    · rw [Function.update_of_ne hpath] at hfile
      exact List.mem_cons_of_mem _ (s.known fileType name hplain hfile)
  database := s.database

end State

variable (env : RunEnvironment) (hooksDirIn : HooksDir)

/-- `contains(creatorMark)`, for a comment. -/
def isCreatorMark (applicationName : String) : Node → Bool
  | .comment text => decide ((applicationName ++ ";").toList <:+: text.toList)
  | _ => false

def LibAccountsFile.createdByUs (xml : Document) : Bool :=
  (xml.before ++ xml.after).any (isCreatorMark env.applicationName)

/-- What `removeStaleAccounts` finds outside of the program. -/
def RunEnvironment.forAccounts : AccountsHook.Environment where
  library := env.library
  removesAccount := env.removesAccount

/-- `removeStaleAccounts(manager, providerName)`, the same function in both hook programs. -/
def removeStaleAccounts (providerName : String) (database : Database) : Database :=
  (AccountsHook.removeStaleAccounts env.forAccounts providerName { database := database }).database

/-- The names that `entryInfoList` returns with the filters for a file type. -/
def entryInfoList (s : State env.toEnvironment) (fileType : String) : List String :=
  (s.names.filter fun name =>
    '/' ∉ name.toList ∧ (s.files (filePath env.toEnvironment fileType name)).isSome = true ∧
      env.readable (filePath env.toEnvironment fileType name) = true ∧
        Wildcard.accepts ("*." ++ fileType) name = true).dedup

/-- The name filter for the hook files that a profile belongs to. -/
def hookFileName (fileType profile : String) : String := stripVersion profile ++ "_*." ++ fileType

/-- A hook file that a profile belongs to is there. -/
def HooksDir.knows (fileType profile : String) : Bool :=
  hooksDirIn.hooks.any fun hook => Wildcard.accepts (hookFileName fileType profile) hook.fileName

/-- The file was created by the program, and its hook file has gone. -/
def isStale (fileType : String) (file : File) : Bool :=
  match file.document with
  | none => false
  | some xml => createdByUs env xml && !hooksDirIn.knows fileType (profile xml)

/-- One round of the loop over the files of one type. -/
def removeStaleFile (fileType : String) (s : State env.toEnvironment) (name : String) :
    State env.toEnvironment :=
  let path := filePath env.toEnvironment fileType name
  match s.files path with
  | none => s
  | some file =>
      if isStale env hooksDirIn fileType file then
        let s := if env.removes path then s.change path none else s
        if fileType = "provider" then
          { s with
            database := removeStaleAccounts env (AccountsHook.completeBaseName name) s.database }
        else s
      else s

def removeStaleFilesOf (s : State env.toEnvironment) (fileType : String) :
    State env.toEnvironment :=
  (entryInfoList env s fileType).foldl (removeStaleFile env hooksDirIn fileType) s

def removeStaleFiles (s : State env.toEnvironment) : State env.toEnvironment :=
  fileTypes.foldl (removeStaleFilesOf env hooksDirIn) s

/-- One round of the loop over the hook files. -/
def processFile (s : State env.toEnvironment) (hook : HookFile) : State env.toEnvironment :=
  s.change (destination env.toEnvironment hook)
    (process env.toEnvironment s.files hook (destination env.toEnvironment hook))

/-- One run of the program. -/
def run (s : State env.toEnvironment) : State env.toEnvironment :=
  hooksDirIn.hooks.foldl (processFile env) (removeStaleFiles env hooksDirIn s)

/-! ### The files -/

variable {env hooksDirIn}

/-- What writing a document leaves at the destination. -/
def copied (env : Environment) (hook : HookFile) (xml : Document) : Option File :=
  if env.writes (destination env hook) then
    some ⟨hook.file.lastModified, some (published env hook xml)⟩
  else none

/-- A hook file as an original with a time stamp, if it is looked at. -/
def original (env : Environment) (hook : HookFile) : Option (Original File ℕ) :=
  if hook.suffix ∈ fileTypes ∧ env.opens (destination env hook) = true then
    hook.file.document.map fun xml => (hook.file.lastModified, copied env hook xml)
  else none

/-- The hook files that are published at a path. -/
def originals (env : Environment) (hooks : List HookFile) (path : String) :
    List (Original File ℕ) :=
  (hooks.filter fun hook => destination env hook = path).filterMap (original env)

theorem process_destination (env : Environment) (files : Files) (hook : HookFile) :
    process env files hook (destination env hook) =
      match original env hook with
      | none => files (destination env hook)
      | some o => update File.lastModified (files (destination env hook)) o := by
  have hdate : upToDate env hook files = true ↔
      (files (destination env hook)).map File.lastModified = some hook.file.lastModified := by
    unfold upToDate
    cases files (destination env hook) with
    | none => simp
    | some file => simp
  by_cases hlooked : hook.suffix ∈ fileTypes ∧ env.opens (destination env hook) = true
  · obtain ⟨hs, ho⟩ := hlooked
    cases hdocument : hook.file.document with
    | none => simp [process, original, hdocument]
    | some xml =>
        have horiginal :
            original env hook = some (hook.file.lastModified, copied env hook xml) := by
          simp only [original, if_pos (And.intro hs ho), hdocument, Option.map_some]
        rw [horiginal]
        dsimp only
        by_cases hu : upToDate env hook files = true
        · rw [update_of_eq (hdate.mp hu)]
          simp [process, hu]
        · rw [update_of_ne (mt hdate.mpr hu)]
          simp only [process, if_pos hs, if_neg hu, hdocument, writeTo, if_pos ho, copied]
          split_ifs <;> exact Function.update_self _ _ _
  · have horiginal : original env hook = none := if_neg hlooked
    rw [horiginal]
    unfold process
    split_ifs with hs hu
    · rfl
    · cases hook.file.document with
      | none => rfl
      | some xml =>
          have ho : env.opens (destination env hook) ≠ true := fun ho => hlooked ⟨hs, ho⟩
          simp only [writeTo, if_neg ho]
    · rfl

theorem foldl_process (env : Environment) (hooks : List HookFile) (files : Files) (path : String) :
    hooks.foldl (process env) files path =
      updateAll File.lastModified (files path) (originals env hooks path) := by
  induction hooks generalizing files with
  | nil => rfl
  | cons hook hooks ih =>
      rw [List.foldl_cons, ih]
      by_cases hpath : destination env hook = path
      · subst hpath
        have hcons : originals env (hook :: hooks) (destination env hook) =
            (original env hook).toList ++ originals env hooks (destination env hook) := by
          unfold originals
          rw [List.filter_cons_of_pos (by simp), List.filterMap_cons]
          cases original env hook <;> rfl
        rw [process_destination, hcons]
        cases original env hook <;> rfl
      · have hcons : originals env (hook :: hooks) path = originals env hooks path := by
          unfold originals
          rw [List.filter_cons_of_neg (by simp [hpath])]
        rw [process_frame env files hook hpath, hcons]

theorem exists_of_mem_originals {env : Environment} {hooks : List HookFile} {path : String}
    {o : Original File ℕ} (h : o ∈ originals env hooks path) :
    ∃ hook ∈ hooks, ∃ xml, destination env hook = path ∧ hook.suffix ∈ fileTypes ∧
      hook.file.document = some xml ∧ o = (hook.file.lastModified, copied env hook xml) := by
  obtain ⟨hook, hmem, ho⟩ := List.mem_filterMap.mp h
  obtain ⟨hhook, hpath⟩ := List.mem_filter.mp hmem
  have hpath : destination env hook = path := of_decide_eq_true hpath
  subst hpath
  unfold original at ho
  split_ifs at ho with hlooked
  obtain ⟨xml, hxml, ho⟩ := Option.map_eq_some_iff.mp ho
  exact ⟨hook, hhook, xml, rfl, hlooked.1, hxml, ho.symm⟩

theorem uniform_originals (env : Environment) (hooks : List HookFile) (path : String) :
    Uniform File.lastModified (originals env hooks path) where
  stamped o ho file hfile := by
    obtain ⟨hook, -, xml, -, -, -, rfl⟩ := exists_of_mem_originals ho
    dsimp only [copied] at hfile
    split_ifs at hfile
    · obtain rfl := Option.some.inj hfile
      rfl
    · cases hfile
  together := by
    by_cases hwrites : env.writes path = true
    · left
      intro o ho
      obtain ⟨hook, -, xml, rfl, -, -, rfl⟩ := exists_of_mem_originals ho
      simp [copied, hwrites]
    · right
      intro o ho
      obtain ⟨hook, -, xml, rfl, -, -, rfl⟩ := exists_of_mem_originals ho
      simp [copied, hwrites]

/-- The name of a file that exists and is stale. -/
def Found (env : RunEnvironment) (hooksDirIn : HooksDir) (fileType : String) (files : Files)
    (name : String) : Prop :=
  ∃ file, files (filePath env.toEnvironment fileType name) = some file ∧
    isStale env hooksDirIn fileType file = true

/-- A name that passes the filters for a file type. -/
structure Eligible (env : RunEnvironment) (fileType name : String) : Prop where
  plain : '/' ∉ name.toList
  readable : env.readable (filePath env.toEnvironment fileType name) = true
  accepted : Wildcard.accepts ("*." ++ fileType) name = true

/-- The file at a path is stale and can be removed. -/
structure Takes (env : RunEnvironment) (hooksDirIn : HooksDir) (fileType : String) (files : Files)
    (name path : String) : Prop where
  at_path : filePath env.toEnvironment fileType name = path
  removes : env.removes path = true
  found : Found env hooksDirIn fileType files name

/-- A file is removed from the path. -/
def Cleared (env : RunEnvironment) (hooksDirIn : HooksDir) (types : List String) (files : Files)
    (path : String) : Prop :=
  ∃ fileType ∈ types, ∃ name, Eligible env fileType name ∧
    Takes env hooksDirIn fileType files name path

theorem mem_entryInfoList {s : State env.toEnvironment} {fileType name : String} :
    name ∈ entryInfoList env s fileType ↔ Eligible env fileType name ∧
      (s.files (filePath env.toEnvironment fileType name)).isSome = true := by
  unfold entryInfoList
  rw [List.mem_dedup, List.mem_filter, decide_eq_true_iff]
  constructor
  · rintro ⟨-, hplain, hfile, hreadable, haccepted⟩
    exact ⟨⟨hplain, hreadable, haccepted⟩, hfile⟩
  · rintro ⟨⟨hplain, hreadable, haccepted⟩, hfile⟩
    exact ⟨s.known fileType name hplain hfile, hplain, hfile, hreadable, haccepted⟩

theorem Takes.congr {fileType name path : String} {files files' : Files}
    (h : files' path = files path) (htakes : Takes env hooksDirIn fileType files name path) :
    Takes env hooksDirIn fileType files' name path := by
  obtain ⟨rfl, hremoves, file, hfile, hstale⟩ := htakes
  exact ⟨rfl, hremoves, file, h.trans hfile, hstale⟩

theorem Cleared.congr {types : List String} {path : String} {files files' : Files}
    (h : files' path = files path) (hcleared : Cleared env hooksDirIn types files path) :
    Cleared env hooksDirIn types files' path := by
  obtain ⟨fileType, htype, name, heligible, htakes⟩ := hcleared
  exact ⟨fileType, htype, name, heligible, htakes.congr h⟩

theorem Takes.ne_none {fileType name path : String} {files : Files}
    (h : Takes env hooksDirIn fileType files name path) : files path ≠ none := by
  obtain ⟨rfl, -, file, hfile, -⟩ := h
  rw [hfile]
  exact Option.some_ne_none file

theorem removeStaleFile_of_found {fileType name : String} {s : State env.toEnvironment}
    (h : Found env hooksDirIn fileType s.files name) :
    (removeStaleFile env hooksDirIn fileType s name).files =
        (if env.removes (filePath env.toEnvironment fileType name) = true then
          Function.update s.files (filePath env.toEnvironment fileType name) none
        else s.files) ∧
      (removeStaleFile env hooksDirIn fileType s name).database =
        if fileType = "provider" then
          removeStaleAccounts env (AccountsHook.completeBaseName name) s.database
        else s.database := by
  obtain ⟨file, hfile, hstale⟩ := h
  simp only [removeStaleFile, hfile, if_pos hstale]
  split_ifs <;> exact ⟨rfl, rfl⟩

theorem removeStaleFile_of_not_found {fileType name : String} {s : State env.toEnvironment}
    (h : ¬ Found env hooksDirIn fileType s.files name) :
    removeStaleFile env hooksDirIn fileType s name = s := by
  unfold removeStaleFile
  dsimp only
  cases hfile : s.files (filePath env.toEnvironment fileType name) with
  | none => rfl
  | some file => exact if_neg fun hstale => h ⟨file, hfile, hstale⟩

theorem removeStaleFile_files (hooksDirIn : HooksDir) (fileType : String)
    (s : State env.toEnvironment) (name path : String) :
    (Takes env hooksDirIn fileType s.files name path →
        (removeStaleFile env hooksDirIn fileType s name).files path = none) ∧
      (¬ Takes env hooksDirIn fileType s.files name path →
        (removeStaleFile env hooksDirIn fileType s name).files path = s.files path) := by
  constructor
  · rintro ⟨rfl, hremoves, hfound⟩
    rw [(removeStaleFile_of_found hfound).1, if_pos hremoves, Function.update_self]
  · intro hnot
    by_cases hfound : Found env hooksDirIn fileType s.files name
    · rw [(removeStaleFile_of_found hfound).1]
      by_cases hremoves : env.removes (filePath env.toEnvironment fileType name) = true
      · rw [if_pos hremoves]
        refine Function.update_of_ne ?_ _ _
        rintro rfl
        exact hnot ⟨rfl, hremoves, hfound⟩
      · rw [if_neg hremoves]
    · rw [removeStaleFile_of_not_found hfound]

theorem foldl_removeStaleFile_files (hooksDirIn : HooksDir) (fileType : String)
    (names : List String) (s : State env.toEnvironment) (path : String) :
    ((∃ name ∈ names, Takes env hooksDirIn fileType s.files name path) →
        (names.foldl (removeStaleFile env hooksDirIn fileType) s).files path = none) ∧
      ((¬ ∃ name ∈ names, Takes env hooksDirIn fileType s.files name path) →
        (names.foldl (removeStaleFile env hooksDirIn fileType) s).files path = s.files path) := by
  induction names generalizing s with
  | nil => exact ⟨by simp, fun _ => rfl⟩
  | cons name names ih =>
      obtain ⟨hgone, hkept⟩ := removeStaleFile_files hooksDirIn fileType s name path
      obtain ⟨ihgone, ihkept⟩ := ih (removeStaleFile env hooksDirIn fileType s name)
      rw [List.foldl_cons]
      by_cases htakes : Takes env hooksDirIn fileType s.files name path
      · have hnone := hgone htakes
        refine ⟨fun _ => ?_, fun hnot => absurd ⟨name, List.mem_cons_self, htakes⟩ hnot⟩
        rw [ihkept, hnone]
        rintro ⟨name', -, htakes'⟩
        exact htakes'.ne_none hnone
      · have hsame := hkept htakes
        constructor
        · rintro ⟨name', hmem, htakes'⟩
          rcases List.mem_cons.mp hmem with rfl | hmem
          · exact absurd htakes' htakes
          · exact ihgone ⟨name', hmem, htakes'.congr hsame⟩
        · intro hnot
          rw [ihkept, hsame]
          rintro ⟨name', hmem, htakes'⟩
          exact hnot ⟨name', List.mem_cons_of_mem _ hmem, htakes'.congr hsame.symm⟩

theorem foldl_removeStaleFilesOf_files (hooksDirIn : HooksDir) (types : List String)
    (s : State env.toEnvironment) (path : String) :
    (Cleared env hooksDirIn types s.files path →
        (types.foldl (removeStaleFilesOf env hooksDirIn) s).files path = none) ∧
      (¬ Cleared env hooksDirIn types s.files path →
        (types.foldl (removeStaleFilesOf env hooksDirIn) s).files path = s.files path) := by
  induction types generalizing s with
  | nil => exact ⟨fun ⟨_, h, _⟩ => absurd h List.not_mem_nil, fun _ => rfl⟩
  | cons fileType types ih =>
      obtain ⟨hgone, hkept⟩ := foldl_removeStaleFile_files hooksDirIn fileType
        (entryInfoList env s fileType) s path
      obtain ⟨ihgone, ihkept⟩ := ih (removeStaleFilesOf env hooksDirIn s fileType)
      rw [List.foldl_cons]
      by_cases htakes : ∃ name ∈ entryInfoList env s fileType,
          Takes env hooksDirIn fileType s.files name path
      · have hnone : (removeStaleFilesOf env hooksDirIn s fileType).files path = none :=
          hgone htakes
        obtain ⟨name, hmem, htakes⟩ := htakes
        refine ⟨fun _ => ?_, fun hnot => absurd ⟨fileType, List.mem_cons_self, name,
          (mem_entryInfoList.mp hmem).1, htakes⟩ hnot⟩
        rw [ihkept, hnone]
        rintro ⟨_, _, _, _, htakes'⟩
        exact htakes'.ne_none hnone
      · have hsame : (removeStaleFilesOf env hooksDirIn s fileType).files path = s.files path :=
          hkept htakes
        constructor
        · rintro ⟨fileType', hmem, name, heligible, htakes'⟩
          rcases List.mem_cons.mp hmem with rfl | hmem
          · obtain ⟨hpath, -, file, hfile, -⟩ := id htakes'
            exact absurd ⟨name, mem_entryInfoList.mpr ⟨heligible, by simp [hfile]⟩, htakes'⟩ htakes
          · exact ihgone ⟨fileType', hmem, name, heligible, htakes'.congr hsame⟩
        · intro hnot
          rw [ihkept, hsame]
          rintro ⟨fileType', hmem, name, heligible, htakes'⟩
          exact hnot ⟨fileType', List.mem_cons_of_mem _ hmem, name, heligible,
            htakes'.congr hsame.symm⟩

theorem removeStaleFiles_files (hooksDirIn : HooksDir) (s : State env.toEnvironment)
    (path : String) :
    (Cleared env hooksDirIn fileTypes s.files path →
        (removeStaleFiles env hooksDirIn s).files path = none) ∧
      (¬ Cleared env hooksDirIn fileTypes s.files path →
        (removeStaleFiles env hooksDirIn s).files path = s.files path) :=
  foldl_removeStaleFilesOf_files hooksDirIn fileTypes s path

theorem foldl_processFile (hooks : List HookFile) (s : State env.toEnvironment) :
    (hooks.foldl (processFile env) s).files = hooks.foldl (process env.toEnvironment) s.files ∧
      (hooks.foldl (processFile env) s).database = s.database := by
  induction hooks generalizing s with
  | nil => exact ⟨rfl, rfl⟩
  | cons hook hooks ih =>
      have hround : (processFile env s hook).files = process env.toEnvironment s.files hook := by
        funext path
        by_cases hpath : path = destination env.toEnvironment hook
        · subst hpath
          exact Function.update_self _ _ _
        · rw [process_frame _ _ _ (Ne.symm hpath)]
          exact Function.update_of_ne hpath _ _
      rw [List.foldl_cons, List.foldl_cons, ← hround]
      exact ih (processFile env s hook)

theorem run_files (s : State env.toEnvironment) (path : String) :
    (run env hooksDirIn s).files path =
      updateAll File.lastModified ((removeStaleFiles env hooksDirIn s).files path)
        (originals env.toEnvironment hooksDirIn.hooks path) := by
  unfold run
  rw [(foldl_processFile _ _).1, foldl_process]

/-- A file after a run is the one before it, if that has not been removed, or has been published. -/
theorem run_files_cases (hooksDirIn : HooksDir) (s : State env.toEnvironment) (path : String) :
    (run env hooksDirIn s).files path = (removeStaleFiles env hooksDirIn s).files path ∨
      ∃ hook ∈ hooksDirIn.hooks, ∃ xml, destination env.toEnvironment hook = path ∧
        hook.suffix ∈ fileTypes ∧ hook.file.document = some xml ∧
          (run env hooksDirIn s).files path = copied env.toEnvironment hook xml := by
  rw [run_files]
  rcases updateAll_cases File.lastModified ((removeStaleFiles env hooksDirIn s).files path)
    (originals env.toEnvironment hooksDirIn.hooks path) with hold | ⟨o, ho, hnew⟩
  · exact .inl hold
  · obtain ⟨hook, hhook, xml, hpath, hsuffix, hxml, rfl⟩ := exists_of_mem_originals ho
    exact .inr ⟨hook, hhook, xml, hpath, hsuffix, hxml, hnew⟩

/-- **All files after a second run are as they were after the first.** -/
theorem files_run_twice (env : RunEnvironment) (hooksDirIn : HooksDir)
    (s : State env.toEnvironment) :
    (run env hooksDirIn (run env hooksDirIn s)).files = (run env hooksDirIn s).files := by
  funext path
  obtain ⟨hgone, hkept⟩ := removeStaleFiles_files hooksDirIn s path
  obtain ⟨hgone', hkept'⟩ := removeStaleFiles_files hooksDirIn (run env hooksDirIn s) path
  have huniform := uniform_originals env.toEnvironment hooksDirIn.hooks path
  rw [run_files]
  by_cases hcleared : Cleared env hooksDirIn fileTypes (run env hooksDirIn s).files path
  · -- what the second run removes has been published by the first, and is published again
    rw [hgone' hcleared]
    rcases updateAll_lost huniform ((removeStaleFiles env hooksDirIn s).files path) with
      hold | hagain
    · rw [← run_files] at hold
      exfalso
      by_cases hbefore : Cleared env hooksDirIn fileTypes s.files path
      · obtain ⟨_, _, _, _, htakes⟩ := hcleared
        exact htakes.ne_none (hold.trans (hgone hbefore))
      · exact hbefore (hcleared.congr (hold.trans (hkept hbefore)).symm)
    · rw [run_files]
      exact hagain.symm
  · rw [hkept' hcleared, run_files]
    exact updateAll_idem huniform _

/-! ### The accounts -/

open Accounts.Database

/-- No account of the provider is left that could be removed. -/
def NoneLeft (env : RunEnvironment) (providerName : String) (database : Database) : Prop :=
  ∀ id account, database.accounts id = some account → account.provider = providerName →
    env.removesAccount id = false

theorem NoneLeft.fewer {providerName : String} {database database' : Database}
    (hfewer : Fewer database' database) (h : NoneLeft env providerName database) :
    NoneLeft env providerName database' := by
  intro id account' haccount' hprovider
  obtain ⟨account, haccount, hsame, -⟩ := hfewer id account' haccount'
  exact h id account haccount (hsame.symm.trans hprovider)

theorem removeStaleAccounts_spec (env : RunEnvironment) (providerName : String)
    (database : Database) :
    Fewer (removeStaleAccounts env providerName database) database ∧
      NoneLeft env providerName (removeStaleAccounts env providerName database) ∧
        (NoneLeft env providerName database →
          removeStaleAccounts env providerName database = database) := by
  obtain ⟨hfewer, hremoved⟩ := AccountsHook.foldl_settles
    (AccountsHook.removeAccount_fewer env.forAccounts providerName)
    (AccountsHook.removeAccount_removed providerName) (fun h hremoved => hremoved.fewer h)
    (env.library.accountList database) { database := database }
  refine ⟨hfewer, fun id account' haccount' => ?_, fun hnone => ?_⟩
  · obtain ⟨account, haccount, -⟩ := hfewer id account' haccount'
    have hlisted := env.library.mem_accountList.mpr (Option.isSome_of_eq_some haccount)
    exact hremoved id hlisted account' haccount'
  · exact AccountsHook.foldl_of_settled (AccountsHook.removeAccount_of_removed providerName)
      (env.library.accountList database) { database := database } fun id _ => hnone id

/-- An account of another provider stays, and so does one whose removal is not stored. -/
theorem removeStaleAccounts_keeps {providerName : String} {database : Database} {id : ℕ}
    {account : StoredAccount} (h : database.accounts id = some account)
    (hkept : account.provider = providerName → env.removesAccount id = false) :
    (removeStaleAccounts env providerName database).accounts id = some account := by
  have hround (s : AccountsHook.State) (id' : ℕ) (hs : s.database.accounts id = some account) :
      (AccountsHook.removeAccount env.forAccounts providerName s id').database.accounts id =
        some account := by
    rcases AccountsHook.removeAccount_cases env.forAccounts providerName s id' with
      ⟨hsame, -⟩ | ⟨-, hupdate, hremoved⟩
    · rw [hsame, hs]
    · rw [hupdate, Function.update_of_ne, hs]
      rintro rfl
      refine hremoved fun account' haccount' hprovider => hkept ?_
      rw [hs] at haccount'
      rwa [Option.some.inj haccount']
  have hloop (ids : List ℕ) (s : AccountsHook.State) (hs : s.database.accounts id = some account) :
      (ids.foldl (AccountsHook.removeAccount env.forAccounts providerName) s).database.accounts id =
        some account := by
    induction ids generalizing s with
    | nil => exact hs
    | cons id' ids ih => exact ih _ (hround s id' hs)
  exact hloop _ _ h

theorem filePath_injective {fileType fileType' name name' : String} (h : fileType ∈ fileTypes)
    (h' : fileType' ∈ fileTypes) {env : Environment}
    (hpath : filePath env fileType name = filePath env fileType' name') :
    fileType = fileType' ∧ name = name' := by
  have hlist := congrArg String.toList hpath
  simp only [filePath, String.toList_append, List.append_assoc, List.append_cancel_left_eq] at hlist
  simp only [fileTypes, List.mem_cons, List.not_mem_nil, or_false] at h h'
  rcases h with rfl | rfl | rfl | rfl <;> rcases h' with rfl | rfl | rfl | rfl <;>
    simp_all [String.ext_iff]

theorem removeStaleFile_database {fileType : String} (h : fileType ≠ "provider")
    (s : State env.toEnvironment) (name : String) :
    (removeStaleFile env hooksDirIn fileType s name).database = s.database := by
  by_cases hfound : Found env hooksDirIn fileType s.files name
  · rw [(removeStaleFile_of_found hfound).2, if_neg h]
  · rw [removeStaleFile_of_not_found hfound]

/-- Removing other files does not change what is found. -/
theorem found_of_removeStaleFile {name name' : String} {s : State env.toEnvironment}
    (h : Found env hooksDirIn "provider" (removeStaleFile env hooksDirIn "provider" s name').files
      name) : Found env hooksDirIn "provider" s.files name := by
  obtain ⟨file, hfile, hstale⟩ := h
  obtain ⟨hgone, hkept⟩ := removeStaleFile_files hooksDirIn "provider" s name'
    (filePath env.toEnvironment "provider" name)
  by_cases htakes : Takes env hooksDirIn "provider" s.files name'
      (filePath env.toEnvironment "provider" name)
  · rw [hgone htakes] at hfile
    cases hfile
  · rw [hkept htakes] at hfile
    exact ⟨file, hfile, hstale⟩

theorem found_removeStaleFile {name name' : String} (hne : name' ≠ name)
    {s : State env.toEnvironment} (h : Found env hooksDirIn "provider" s.files name) :
    Found env hooksDirIn "provider" (removeStaleFile env hooksDirIn "provider" s name').files
      name := by
  obtain ⟨file, hfile, hstale⟩ := h
  refine ⟨file, ?_, hstale⟩
  rw [(removeStaleFile_files hooksDirIn "provider" s name' _).2, hfile]
  rintro ⟨hpath, -, -⟩
  exact hne (filePath_injective (by decide) (by decide) hpath).2

theorem foldl_removeStaleFile_database (hooksDirIn : HooksDir) (names : List String)
    (s : State env.toEnvironment) :
    let t := names.foldl (removeStaleFile env hooksDirIn "provider") s
    Fewer t.database s.database ∧
      (∀ name ∈ names, Found env hooksDirIn "provider" s.files name →
        NoneLeft env (AccountsHook.completeBaseName name) t.database) ∧
      ((∀ name ∈ names, Found env hooksDirIn "provider" s.files name →
          NoneLeft env (AccountsHook.completeBaseName name) s.database) →
        t.database = s.database) := by
  dsimp only
  induction names generalizing s with
  | nil => exact ⟨Fewer.refl _, by simp, fun _ => rfl⟩
  | cons name names ih =>
      obtain ⟨hfewer, hnone, hsame⟩ := ih (removeStaleFile env hooksDirIn "provider" s name)
      rw [List.foldl_cons]
      by_cases hfound : Found env hooksDirIn "provider" s.files name
      · obtain ⟨hless, hleft, hidle⟩ := removeStaleAccounts_spec env
          (AccountsHook.completeBaseName name) s.database
        have hround := (removeStaleFile_of_found hfound).2
        rw [if_pos rfl] at hround
        rw [hround] at hfewer hsame
        refine ⟨hfewer.trans hless, fun name' hmem hfound' => ?_, fun hall => ?_⟩
        · by_cases hne : name = name'
          · subst hne
            exact hleft.fewer hfewer
          · exact hnone name' ((List.mem_cons.mp hmem).resolve_left (Ne.symm hne))
              (found_removeStaleFile hne hfound')
        · have hrest := hidle (hall name List.mem_cons_self hfound)
          rw [hrest] at hsame
          exact hsame fun name' hmem hfound' =>
            hall name' (List.mem_cons_of_mem _ hmem) (found_of_removeStaleFile hfound')
      · rw [removeStaleFile_of_not_found hfound] at hfewer hnone hsame ⊢
        refine ⟨hfewer, fun name' hmem hfound' => ?_, fun hall => ?_⟩
        · rcases List.mem_cons.mp hmem with rfl | hmem
          · exact absurd hfound' hfound
          · exact hnone name' hmem hfound'
        · exact hsame fun name' hmem => hall name' (List.mem_cons_of_mem _ hmem)

/-- The name of a provider file that is stale, for the program. -/
def StaleProvider (env : RunEnvironment) (hooksDirIn : HooksDir) (files : Files) (name : String) :
    Prop :=
  Eligible env "provider" name ∧ Found env hooksDirIn "provider" files name

theorem foldl_removeStaleFilesOf_database {types : List String} (h : "provider" ∉ types)
    (s : State env.toEnvironment) :
    (types.foldl (removeStaleFilesOf env hooksDirIn) s).database = s.database := by
  induction types generalizing s with
  | nil => rfl
  | cons fileType types ih =>
      have hne : fileType ≠ "provider" := fun he => h (he ▸ List.mem_cons_self)
      have hnames (names : List String) (s : State env.toEnvironment) :
          (names.foldl (removeStaleFile env hooksDirIn fileType) s).database = s.database := by
        induction names generalizing s with
        | nil => rfl
        | cons name names ihnames =>
            rw [List.foldl_cons, ihnames, removeStaleFile_database hne]
      rw [List.foldl_cons, ih fun hmem => h (List.mem_cons_of_mem _ hmem)]
      exact hnames _ s

/-- The providers come first, and the other files have no accounts. -/
theorem removeStaleFiles_database_eq (hooksDirIn : HooksDir) (s : State env.toEnvironment) :
    (removeStaleFiles env hooksDirIn s).database =
      ((entryInfoList env s "provider").foldl (removeStaleFile env hooksDirIn "provider")
        s).database := by
  have hothers : "provider" ∉ fileTypes.tail := by decide
  exact foldl_removeStaleFilesOf_database hothers (removeStaleFilesOf env hooksDirIn s "provider")

theorem removeStaleFiles_database (hooksDirIn : HooksDir) (s : State env.toEnvironment) :
    Fewer (removeStaleFiles env hooksDirIn s).database s.database ∧
      (∀ name, StaleProvider env hooksDirIn s.files name →
        NoneLeft env (AccountsHook.completeBaseName name)
          (removeStaleFiles env hooksDirIn s).database) ∧
      ((∀ name, StaleProvider env hooksDirIn s.files name →
          NoneLeft env (AccountsHook.completeBaseName name) s.database) →
        (removeStaleFiles env hooksDirIn s).database = s.database) := by
  obtain ⟨hfewer, hnone, hsame⟩ := foldl_removeStaleFile_database hooksDirIn
    (entryInfoList env s "provider") s
  rw [removeStaleFiles_database_eq]
  refine ⟨hfewer, fun name hstale => ?_, fun hall => ?_⟩
  · obtain ⟨heligible, file, hfile, hstale⟩ := hstale
    exact hnone name (mem_entryInfoList.mpr ⟨heligible, by simp [hfile]⟩) ⟨file, hfile, hstale⟩
  · exact hsame fun name hmem hfound => hall name ⟨(mem_entryInfoList.mp hmem).1, hfound⟩

theorem foldl_removeStaleFile_keeps {hooksDirIn : HooksDir} (names : List String)
    {s : State env.toEnvironment} {id : ℕ} {account : StoredAccount}
    (h : s.database.accounts id = some account)
    (hkept : ∀ name ∈ names, Found env hooksDirIn "provider" s.files name →
      account.provider = AccountsHook.completeBaseName name → env.removesAccount id = false) :
    (names.foldl (removeStaleFile env hooksDirIn "provider") s).database.accounts id =
      some account := by
  induction names generalizing s with
  | nil => exact h
  | cons name names ih =>
      rw [List.foldl_cons]
      apply ih
      · by_cases hfound : Found env hooksDirIn "provider" s.files name
        · rw [(removeStaleFile_of_found hfound).2, if_pos rfl]
          exact removeStaleAccounts_keeps h (hkept name List.mem_cons_self hfound)
        · rwa [removeStaleFile_of_not_found hfound]
      · intro name' hmem hfound
        exact hkept name' (List.mem_cons_of_mem _ hmem) (found_of_removeStaleFile hfound)

theorem run_database (s : State env.toEnvironment) :
    (run env hooksDirIn s).database = (removeStaleFiles env hooksDirIn s).database :=
  (foldl_processFile _ _).2

/-- A run leaves the accounts that are not removable or not of a stale provider. -/
theorem run_keeps {hooksDirIn : HooksDir} {s : State env.toEnvironment} {id : ℕ}
    {account : StoredAccount} (h : s.database.accounts id = some account)
    (hkept : ∀ name, StaleProvider env hooksDirIn s.files name →
      account.provider = AccountsHook.completeBaseName name → env.removesAccount id = false) :
    (run env hooksDirIn s).database.accounts id = some account := by
  rw [run_database, removeStaleFiles_database_eq]
  refine foldl_removeStaleFile_keeps _ h fun name hmem hfound => ?_
  exact hkept name ⟨(mem_entryInfoList.mp hmem).1, hfound⟩

/-- A run changes no account exactly if none is left of the stale providers. -/
theorem run_database_iff (hooksDirIn : HooksDir) (s : State env.toEnvironment) :
    (run env hooksDirIn s).database = s.database ↔
      ∀ name, StaleProvider env hooksDirIn s.files name →
        NoneLeft env (AccountsHook.completeBaseName name) s.database := by
  obtain ⟨-, hnone, hsame⟩ := removeStaleFiles_database hooksDirIn s
  rw [run_database]
  refine ⟨fun h name hstale => ?_, hsame⟩
  have hleft := hnone name hstale
  rwa [h] at hleft

/-! ### Providers that no hook file belongs to -/

/-- The writers after the first one change the root only. -/
theorem published_after (env : Environment) (hook : HookFile) (xml : Document) :
    (published env hook xml).after = (addCreatorMark env xml).after := by
  have happend (xml : Document) (tag text : String) :
      (appendIfMissing xml tag text).after = xml.after := by
    unfold appendIfMissing
    split_ifs <;> rfl
  have hpackage (xml : Document) (appId : String) :
      (addPackageDir env xml appId).after = xml.after := by
    unfold addPackageDir
    dsimp only
    split_ifs <;> rfl
  have hicon (xml : Document) (appId : String) :
      (checkIconPath env xml appId).after = xml.after := by
    unfold checkIconPath
    cases xml.root.firstChildElement "icon" with
    | none => rfl
    | some elem =>
        dsimp only
        split_ifs
        · rfl
        · rfl
        · cases env.canonicalFilePath _ with
          | none => rfl
          | some path => rfl
  unfold published addDesktopFile addServiceType
  dsimp only
  split_ifs
  · rw [happend, hicon, hpackage]
    rfl
  · rw [happend, hicon, hpackage]
    rfl
  · rw [hicon, hpackage]
    rfl

theorem createdByUs_published (env : RunEnvironment) (hook : HookFile) (xml : Document) :
    createdByUs env (published env.toEnvironment hook xml) = true := by
  have hmark : isCreatorMark env.applicationName (.comment ("this file is auto-generated by " ++
      env.applicationName ++ "; do not modify")) = true := by
    refine decide_eq_true ⟨"this file is auto-generated by ".toList, " do not modify".toList, ?_⟩
    simp [String.toList_append]
  unfold createdByUs
  rw [published_after]
  simp [addCreatorMark, hmark]

theorem profile_published_eq (env : Environment) (hook : HookFile) (xml : Document) :
    profile (published env hook xml) = profile (addProfile xml hook.completeBaseName) := by
  unfold profile Element.childText
  rw [published_firstChildElement]

/-- What stands before the last separator is the start of a text. -/
theorem join_dropLast_start (sep : Char) (s : String) :
    (join sep (split sep s).dropLast).toList <+: s.toList := by
  have hne : split sep s ≠ [] := by simp [split, List.splitOn_ne_nil]
  by_cases hdrop : (split sep s).dropLast = []
  · rw [hdrop]
    simp [join, List.intercalate]
  · refine ⟨sep :: (join sep [(split sep s).getLast hne]).toList, ?_⟩
    have hjoin := join_split sep s
    rw [← List.dropLast_append_getLast hne, AccountsHook.join_append sep hdrop (by simp)] at hjoin
    conv_rhs => rw [← hjoin]
    simp

theorem completeBaseName_start (hook : HookFile) :
    hook.completeBaseName.toList <+: hook.fileName.toList := by
  unfold HookFile.completeBaseName
  dsimp only
  split_ifs
  · exact List.prefix_refl _
  · exact join_dropLast_start '.' hook.fileName

/-- The provider file of a hook file is there as it has been published, and its profile belongs to
no hook file. -/
structure Disowned (env : RunEnvironment) (hooksDirIn : HooksDir) (files : Files) (hook : HookFile)
    (xml : Document) : Prop where
  provider : hook.suffix = "provider"
  document : hook.file.document = some xml
  published : files (destination env.toEnvironment hook) =
    some ⟨hook.file.lastModified, some (ClickHooks.published env.toEnvironment hook xml)⟩
  readable : env.readable (destination env.toEnvironment hook) = true
  unknown : hooksDirIn.knows "provider" (profile (addProfile xml hook.completeBaseName)) = false

theorem destination_eq (env : Environment) (hook : HookFile) :
    destination env hook =
      filePath env hook.suffix (stripVersion hook.completeBaseName ++ "." ++ hook.suffix) := by
  simp [destination, filePath, String.append_assoc]

theorem Disowned.stale {files : Files} {hook : HookFile} {xml : Document}
    (h : Disowned env hooksDirIn files hook xml) (hhook : hook ∈ hooksDirIn.hooks) :
    StaleProvider env hooksDirIn files
      (stripVersion hook.completeBaseName ++ "." ++ "provider") := by
  have hpath : destination env.toEnvironment hook = filePath env.toEnvironment "provider"
      (stripVersion hook.completeBaseName ++ "." ++ "provider") := by
    rw [destination_eq, h.provider]
  refine ⟨⟨?_, hpath ▸ h.readable, ?_⟩, _, hpath ▸ h.published, ?_⟩
  · have hshort := stripVersion_prefix hook.completeBaseName
    have hbase := hshort.trans (completeBaseName_start hook)
    have hplain : '/' ∉ (stripVersion hook.completeBaseName).toList := fun hmem =>
      hooksDirIn.plain hook hhook (hbase.subset hmem)
    simpa [String.toList_append] using hplain
  · have hfill : Wildcard.accepts ("" ++ "*" ++ ".provider")
        ("" ++ stripVersion hook.completeBaseName ++ ".provider") = true :=
      Wildcard.accepts_fill (by decide) (by decide) _
    simpa [String.append_assoc] using hfill
  · have hunknown := h.unknown
    rw [← profile_published_eq env.toEnvironment] at hunknown
    simp [isStale, createdByUs_published, hunknown]

/-- After a run, the stale provider files are the disowned ones and those of providers that no
removable account is left of. -/
theorem stale_after_run {name : String} {s : State env.toEnvironment}
    (h : StaleProvider env hooksDirIn (run env hooksDirIn s).files name) :
    (∃ hook ∈ hooksDirIn.hooks, ∃ xml,
        Disowned env hooksDirIn (run env hooksDirIn s).files hook xml ∧
          AccountsHook.completeBaseName name = stripVersion hook.completeBaseName) ∨
      NoneLeft env (AccountsHook.completeBaseName name) (run env hooksDirIn s).database := by
  obtain ⟨heligible, file, hfile, hstale⟩ := h
  rcases run_files_cases hooksDirIn s (filePath env.toEnvironment "provider" name) with
    hold | ⟨hook, hhook, xml, hpath, hsuffix, hxml, hnew⟩
  · -- the file was there before, and the run has deleted its accounts
    right
    obtain ⟨hgone, hkept⟩ := removeStaleFiles_files hooksDirIn s
      (filePath env.toEnvironment "provider" name)
    rw [hold] at hfile
    have hstays : ¬ Cleared env hooksDirIn fileTypes s.files
        (filePath env.toEnvironment "provider" name) := by
      intro hcleared
      rw [hgone hcleared] at hfile
      cases hfile
    rw [hkept hstays] at hfile
    rw [run_database]
    exact (removeStaleFiles_database hooksDirIn s).2.1 name ⟨heligible, file, hfile, hstale⟩
  · left
    have hdestination := hpath
    rw [destination_eq] at hdestination
    obtain ⟨hprovider, rfl⟩ := filePath_injective hsuffix (by decide) hdestination
    have hreadable := heligible.readable
    rw [← hpath] at hfile hnew hreadable
    rw [hprovider, AccountsHook.completeBaseName_append _ (by decide)]
    have hcopied := hnew.symm.trans hfile
    unfold copied at hcopied
    split_ifs at hcopied
    obtain rfl := Option.some.inj hcopied
    refine ⟨hook, hhook, xml, ⟨hprovider, hxml, hfile, hreadable, ?_⟩, rfl⟩
    rw [← profile_published_eq env.toEnvironment]
    simpa [isStale, createdByUs_published] using hstale

/-- **A second run deletes accounts exactly for providers that no hook file belongs to**: of a
package whose provider file names a profile, in place of the application id, to which no hook file
belongs, or whose hook file has no version.  The accounts of all other providers survive it. -/
theorem second_run_iff (env : RunEnvironment) (hooksDirIn : HooksDir)
    (s : State env.toEnvironment) :
    ((run env hooksDirIn (run env hooksDirIn s)).database = (run env hooksDirIn s).database ↔
      ∀ hook ∈ hooksDirIn.hooks, ∀ xml,
        Disowned env hooksDirIn (run env hooksDirIn s).files hook xml →
          NoneLeft env (stripVersion hook.completeBaseName) (run env hooksDirIn s).database) ∧
    ∀ id account, (run env hooksDirIn s).database.accounts id = some account →
      (∀ hook ∈ hooksDirIn.hooks, ∀ xml,
        Disowned env hooksDirIn (run env hooksDirIn s).files hook xml →
          account.provider ≠ stripVersion hook.completeBaseName) →
        (run env hooksDirIn (run env hooksDirIn s)).database.accounts id = some account := by
  constructor
  · rw [run_database_iff]
    constructor
    · intro h hook hhook xml hdisowned
      have hnone := h _ (hdisowned.stale hhook)
      rwa [AccountsHook.completeBaseName_append _ (by decide)] at hnone
    · intro h name hstale
      rcases stale_after_run hstale with ⟨hook, hhook, xml, hdisowned, hname⟩ | hnone
      · rw [hname]
        exact h hook hhook xml hdisowned
      · exact hnone
  · intro id account haccount hother
    refine run_keeps haccount fun name hstale hprovider => ?_
    rcases stale_after_run hstale with ⟨hook, hhook, xml, hdisowned, hname⟩ | hnone
    · exact absurd (hprovider.trans hname) (hother hook hhook xml hdisowned)
    · exact hnone id account haccount hprovider

/-! ### Changes of the hook files -/

/-- Runs of the program, with the hook files that are there at each. -/
def runs (env : RunEnvironment) (s : State env.toEnvironment) (history : List HooksDir) :
    State env.toEnvironment :=
  history.foldl (fun s hooksDirIn => run env hooksDirIn s) s

/-- Hook files with the same destination and the same time stamp are published alike. -/
def Dated (env : Environment) (hooks : List HookFile) : Prop :=
  ∀ hook ∈ hooks, ∀ other ∈ hooks, destination env hook = destination env other →
    hook.file.lastModified = other.file.lastModified →
      ∀ xml xml', hook.file.document = some xml → other.file.document = some xml' →
        published env hook xml = published env other xml'

/-- All files have been published from hook files. -/
def Published (env : Environment) (hooks : List HookFile) (files : Files) : Prop :=
  ∀ path file, files path = some file → ∃ hook ∈ hooks, ∃ xml, destination env hook = path ∧
    hook.file.document = some xml ∧
      file = ⟨hook.file.lastModified, some (published env hook xml)⟩

theorem Published.run {hooks : List HookFile} {s : State env.toEnvironment}
    (h : Published env.toEnvironment hooks s.files) (hooksDirIn : HooksDir) :
    Published env.toEnvironment (hooks ++ hooksDirIn.hooks)
      (ClickHooks.run env hooksDirIn s).files := by
  intro path file hfile
  rcases run_files_cases hooksDirIn s path with
    hold | ⟨hook, hhook, xml, hpath, -, hxml, hnew⟩
  · obtain ⟨hgone, hkept⟩ := removeStaleFiles_files hooksDirIn s path
    rw [hold] at hfile
    have hstays : ¬ Cleared env hooksDirIn fileTypes s.files path := by
      intro hcleared
      rw [hgone hcleared] at hfile
      cases hfile
    rw [hkept hstays] at hfile
    obtain ⟨hook, hhook, hrest⟩ := h path file hfile
    exact ⟨hook, List.mem_append_left _ hhook, hrest⟩
  · rw [hnew] at hfile
    unfold copied at hfile
    split_ifs at hfile
    exact ⟨hook, List.mem_append_right _ hhook, xml, hpath, hxml, (Option.some.inj hfile).symm⟩

theorem published_runs (env : RunEnvironment) (database : Database) (history : List HooksDir) :
    Published env.toEnvironment (history.flatMap HooksDir.hooks)
      (runs env (.empty env.toEnvironment database) history).files := by
  induction history using List.reverseRecOn with
  | nil =>
      intro path file hfile
      cases hfile
  | append_singleton history hooksDirIn ih =>
      have hruns : runs env (.empty env.toEnvironment database) (history ++ [hooksDirIn]) =
          run env hooksDirIn (runs env (.empty env.toEnvironment database) history) :=
        List.foldl_append
      rw [hruns, List.flatMap_append, List.flatMap_singleton]
      exact ih.run hooksDirIn

theorem originals_last {env : Environment} {hook : HookFile} {xml : Document}
    (hsuffix : hook.suffix ∈ fileTypes) (hdocument : hook.file.document = some xml)
    (hopens : env.opens (destination env hook) = true) (before : List HookFile)
    {after : List HookFile}
    (hafter : ∀ other ∈ after, destination env other ≠ destination env hook) :
    originals env (before ++ hook :: after) (destination env hook) =
      originals env before (destination env hook) ++
        [(hook.file.lastModified, copied env hook xml)] := by
  have hnone : (after.filter fun other => destination env other = destination env hook) = [] :=
    List.filter_eq_nil_iff.mpr fun other hother => by simpa using hafter other hother
  have horiginal : original env hook = some (hook.file.lastModified, copied env hook xml) := by
    simp only [original, if_pos (And.intro hsuffix hopens), hdocument, Option.map_some]
  unfold originals
  rw [List.filter_append, List.filter_cons_of_pos (by simp), hnone, List.filterMap_append]
  simp [horiginal]

/-- **The current hook files are published**: after any changes of the hook files, with a run of the
program after each, the last one for a destination is published there, if hook files that differ
have different time stamps. -/
theorem published_current (env : RunEnvironment) (database : Database) (history : List HooksDir)
    (hooksDirIn : HooksDir) {hook : HookFile} {xml : Document} {before after : List HookFile}
    (hhooks : hooksDirIn.hooks = before ++ hook :: after) (hsuffix : hook.suffix ∈ fileTypes)
    (hdocument : hook.file.document = some xml)
    (hwritten : env.opens (destination env.toEnvironment hook) = true ∧
      env.writes (destination env.toEnvironment hook) = true)
    (hafter : ∀ other ∈ after,
      destination env.toEnvironment other ≠ destination env.toEnvironment hook)
    (hdated : Dated env.toEnvironment ((history ++ [hooksDirIn]).flatMap HooksDir.hooks)) :
    (runs env (.empty env.toEnvironment database) (history ++ [hooksDirIn])).files
        (destination env.toEnvironment hook) =
      some ⟨hook.file.lastModified, some (published env.toEnvironment hook xml)⟩ := by
  have hruns : runs env (.empty env.toEnvironment database) (history ++ [hooksDirIn]) =
      run env hooksDirIn (runs env (.empty env.toEnvironment database) history) :=
    List.foldl_append
  have hmade : copied env.toEnvironment hook xml =
      some ⟨hook.file.lastModified, some (published env.toEnvironment hook xml)⟩ :=
    if_pos hwritten.2
  have hstamp : ((run env hooksDirIn
      (runs env (.empty env.toEnvironment database) history)).files
        (destination env.toEnvironment hook)).map File.lastModified =
      some hook.file.lastModified := by
    rw [run_files, hhooks, originals_last hsuffix hdocument hwritten.1 before hafter]
    exact updateAll_concat_stamp hmade rfl _ _
  obtain ⟨file, hfile, hdate⟩ := Option.map_eq_some_iff.mp hstamp
  have hpublished := published_runs env database (history ++ [hooksDirIn])
  rw [hruns] at hpublished ⊢
  obtain ⟨other, hother, xml', hpath, hxml', rfl⟩ := hpublished _ file hfile
  have hmem : hook ∈ (history ++ [hooksDirIn]).flatMap HooksDir.hooks := by
    refine List.mem_flatMap.mpr ⟨hooksDirIn, by simp, ?_⟩
    rw [hhooks]
    simp
  have hdate : other.file.lastModified = hook.file.lastModified := hdate
  rw [hfile, hdated hook hmem other hother hpath.symm hdate.symm xml xml' hdocument hxml', hdate]

/-- The provider files of two versions of a package. -/
def providerOf (version : String) (lastModified : ℕ) : HookFile :=
  ⟨"pkg_app_" ++ version ++ ".provider", lastModified, some { root := { tag := "provider" } }⟩

theorem published_current_upgraded :
    (runs {} (.empty _ (.ofList [])) ([⟨[providerOf "1" 7], by decide⟩] ++
        [⟨[providerOf "2" 8], by decide⟩])).files (destination {} (providerOf "2" 8)) =
      some ⟨8, some (published {} (providerOf "2" 8) { root := { tag := "provider" } })⟩ := by
  have hhooks : [providerOf "2" 8] = [] ++ providerOf "2" 8 :: [] := rfl
  refine published_current {} (.ofList []) [⟨[providerOf "1" 7], by decide⟩]
    ⟨[providerOf "2" 8], by decide⟩ hhooks (by decide) rfl ⟨rfl, rfl⟩ (by simp) ?_
  have hboth : ([⟨[providerOf "1" 7], by decide⟩] ++ [⟨[providerOf "2" 8], by decide⟩] :
      List HooksDir).flatMap HooksDir.hooks = [providerOf "1" 7, providerOf "2" 8] := rfl
  rw [hboth]
  intro hook hhook other hother _ hdate xml xml' hxml hxml'
  simp only [List.mem_cons, List.not_mem_nil, or_false] at hhook hother
  rcases hhook with rfl | rfl <;> rcases hother with rfl | rfl
  · rw [Option.some.inj (hxml.symm.trans hxml')]
  · exact absurd hdate (by decide)
  · exact absurd hdate (by decide)
  · rw [Option.some.inj (hxml.symm.trans hxml')]

end OnlineAccounts.ClickHooks
