import OnlineAccounts.HookRuns
import OnlineAccounts.Transition

/-! # The files of the second hook program over a history of packages

Click packages are installed, upgraded and removed, and the hook program runs after each change.
The files below `accounts/` should depend on the manifests that are there now, and on nothing
that was there before.

What a file contains is decided by the last manifest that writes it (`published`).  A change keeps
the files independent of the history exactly if it is `Clean`: a file that no manifest writes any
more must be one that the program finds and removes, so that no application may drop a service or
a plugin and stay, and no plugin may go (`history_independent_iff`). -/

namespace OnlineAccounts.AccountsHook

open Accounts Writes Transition

variable {env : Environment}

/-- All file operations succeed. -/
structure Succeeds (env : Environment) : Prop where
  outcomes : ∀ appId, env.outcomes appId = {}
  removes : ∀ file, env.removes file = true
  removesMarker : ∀ name, env.removesMarker name = true

/-- A valid manifest: the program accepts it when all file operations succeed. -/
def Accepted (env : Environment) (hook : HookFile) : Bool :=
  let manifest := ManifestFile.ofHook env.toSurroundings hook
  manifest.isValid && (manifest.writeFiles env.toSurroundings {}).2

/-- What the program has generated: links, and documents with its mark. -/
def isGenerated (env : Environment) : Content → Bool
  | .document nodes => createdByUs env nodes
  | .link _ => true

def generated (env : Environment) (content : File → Option Content) (file : File) : Option Content :=
  (content file).filter (isGenerated env)

/-- What the last manifest that writes a file puts there. -/
def published (env : Environment) (hooks : List HookFile) (file : File) : Option Content :=
  (lastWrite (hooks.flatMap (changes env)) file).join

/-! ### The history -/

/-- The user's packages, and what the program has left behind. -/
structure Session where
  hooksDir : HooksDir
  state : State

def HooksDir.empty : HooksDir where
  hooks := []
  named := by simp
  single := by simp
  foreign := foreign_nil

/-- The packages change, and the program runs. -/
def machine (env : Environment) (start : State) : Machine Session HooksDir Empty where
  start := ⟨.empty, start⟩
  step s new := .ok ⟨new, run env new s.state⟩

/-- A state without generated files and without markers. -/
structure Blank (env : Environment) (s : State) : Prop where
  files : ∀ file, generated env s.accounts.content file = none
  markers : ∀ name, s.processed name = none

/-- The generated files are those that one run makes in a directory without generated files. -/
def HistoryIndependent (env : Environment) (s : Session) : Prop :=
  ∀ blank, Blank env blank → generated env s.state.accounts.content =
    generated env (run env s.hooksDir blank).accounts.content

/-- A change of the packages: the manifests are valid, and one with the name and the time of an
old one is the old one. -/
structure Update (env : Environment) (old new : HooksDir) : Prop where
  valid : ∀ hook ∈ new.hooks, Accepted env hook = true
  versions : ∀ hook ∈ new.hooks, ∀ hook' ∈ old.hooks, hook.fileName = hook'.fileName →
    hook.lastModified = hook'.lastModified → hook = hook'

/-- The manifests that are new, by their names and times. -/
def added (old new : HooksDir) : List HookFile :=
  new.hooks.filter fun hook => !old.hooks.any fun hook' =>
    hook'.fileName = hook.fileName ∧ hook'.lastModified = hook.lastModified

/-- The program does not remove the file if it comes from this manifest: it does not list the
file, or finds a manifest that it takes for one of the same application. -/
def Kept (env : Environment) (new : HooksDir) (hook : HookFile) (file : File) : Prop :=
  ∀ fileType : FileType, file.dir = fileType.dir → '/' ∉ file.name.toList →
    env.readable file = true → Wildcard.accepts ("*." ++ fileType.name) file.name = true →
      new.entryList.any (Wildcard.accepts (hookFileName hook.appId)) = true

/-- The last manifest that writes the file is a new one, or it was the last one before and nothing
happens to the file; or no manifest writes the file any more, and it is removed. -/
def CleanFile (env : Environment) (old new : HooksDir) (file : File) : Prop :=
  match lastWriter (changes env) new.hooks file with
  | some hook => hook ∈ added old new ∨
      lastWriter (changes env) old.hooks file = some hook ∧ Kept env new hook file ∧
        ∀ other ∈ added old new, lastWrite (changes env other) file = none
  | none => ∀ hook, lastWriter (changes env) old.hooks file = some hook → ¬ Kept env new hook file

def Clean (env : Environment) (old new : HooksDir) : Prop := ∀ file, CleanFile env old new file

/-! ### What a complete manifest leaves -/

/-- If all goes well, nothing is removed without being written again. -/
def Fills (result : List Change × Bool) : Prop :=
  result.2 = true → ∀ file, lastWrite result.1 file ≠ some none

theorem Fills.append {first second : List Change × Bool} (h : Fills first) (h' : Fills second) :
    Fills (first.1 ++ second.1, first.2 && second.2) := by
  intro hok file hnone
  obtain ⟨hok, hok'⟩ := Bool.and_eq_true_iff.mp hok
  rw [lastWrite_append, Option.or_eq_some_iff] at hnone
  rcases hnone with hnone | ⟨-, hnone⟩
  · exact h' hok' file hnone
  · exact h hok file hnone

theorem fills_nil (ok : Bool) : Fills ([], ok) := fun _ _ h => by cases h

theorem fills_writeXmlFile (outcome : WriteOutcome) (nodes : List Markup.Node) (file : File) :
    Fills (ManifestFile.writeXmlFile outcome nodes file) := by
  intro hok file' hnone
  cases outcome with
  | notOpened => cases hok
  | notWritten removed => cases removed <;> cases hok
  | written =>
      have hmem := mem_of_lastWrite hnone
      simp [ManifestFile.writeXmlFile] at hmem

section

variable (env) (m : ManifestFile) (outcomes : Outcomes)

theorem fills_writeServiceFiles (services : List QJsonValue) (i : ℕ) :
    Fills (m.writeServiceFiles env.toSurroundings outcomes i services) := by
  induction services generalizing i with
  | nil => exact fills_nil true
  | cons v services ih =>
      have hfirst := fills_writeXmlFile (outcomes.service i)
        (m.serviceDocument env.toSurroundings v.toObject)
        (m.serviceFile env.toSurroundings v.toObject)
      unfold ManifestFile.writeServiceFiles
      dsimp only
      split_ifs with hok
      · have hboth := hfirst.append (ih (i + 1))
        rw [hok, Bool.true_and] at hboth
        exact hboth
      · exact fun hfalse => absurd hfalse Bool.false_ne_true

theorem fills_writeProviderFile : Fills (m.writeProviderFile env.toSurroundings outcomes) := by
  unfold ManifestFile.writeProviderFile
  dsimp only
  split_ifs
  · exact fills_nil false
  · exact fills_nil false
  · exact fills_writeXmlFile _ _ _

/-- A link that is removed is made again. -/
theorem fills_writePlugins : Fills (m.writePlugins env.toSurroundings outcomes) := by
  have hlinked (target : String) : Fills ((if outcomes.unlinks then [(m.qmlDestination, none)]
      else []) ++ [(m.qmlDestination, some (.link target))], true) := by
    intro _ file hnone
    rw [lastWrite_append, Option.or_eq_some_iff] at hnone
    rcases hnone with hnone | ⟨hother, hnone⟩
    · have hmem := mem_of_lastWrite hnone
      simp at hmem
    · have hmem := mem_of_lastWrite hnone
      rw [lastWrite_eq_none_iff] at hother
      split_ifs at hmem
      · obtain ⟨rfl, -⟩ := Prod.mk.inj (List.mem_singleton.mp hmem)
        exact hother _ List.mem_cons_self
      · cases hmem
  unfold ManifestFile.writePlugins
  dsimp only
  generalize (if outcomes.unlinks then [(m.qmlDestination, none)] else []) = unlinked at hlinked ⊢
  split_ifs
  · exact fills_nil true
  · exact fills_nil false
  · exact fills_nil false
  · exact (hlinked _).append (fills_writeProviderFile env m outcomes)
  · exact fun hfalse => absurd hfalse Bool.false_ne_true

theorem fills_writeFiles : Fills (m.writeFiles env.toSurroundings outcomes) := by
  have hparts := (fills_writeServiceFiles env m outcomes m.services 0).append
    (fills_writePlugins env m outcomes)
  unfold ManifestFile.writeFiles
  dsimp only
  split_ifs with hok
  · have hok' := (Bool.and_eq_true_iff.mp hok).1
    have hall := hparts.append (fills_writeXmlFile outcomes.application
      (m.applicationDocument env.toSurroundings) m.applicationFile)
    rw [hok', Bool.true_and] at hall
    exact hall
  · exact hparts

end

/-! ### What a file contains -/

theorem completes_of_accepted (hs : Succeeds env) {hook : HookFile}
    (h : Accepted env hook = true) : completes env hook = true := by
  unfold completes
  dsimp only
  rw [hs.outcomes]
  unfold Accepted at h
  rw [Bool.and_eq_true]
  exact ⟨h, rfl⟩

/-- What a manifest puts into a file. -/
def contentOf (env : Environment) (hook : HookFile) (file : File) : Option Content :=
  (lastWrite (changes env hook) file).join

/-- A complete manifest gives every file that it changes a content, which is generated: a link,
or a document of its application. -/
theorem exists_contentOf {hook : HookFile} (h : completes env hook = true) {file : File}
    (hwrite : (lastWrite (changes env hook) file).isSome = true) :
    ∃ c, lastWrite (changes env hook) file = some (some c) ∧
      ((file.dir = "qml-plugins" ∧ ∃ target, c = .link target) ∨
        ∃ nodes, c = .document nodes ∧ IsMarked env hook.appId nodes) := by
  obtain ⟨c?, hc⟩ := Option.isSome_iff_exists.mp hwrite
  have hfills : lastWrite (changes env hook) file ≠ some none := by
    unfold completes at h
    dsimp only at h
    rw [Bool.and_eq_true, Bool.and_eq_true] at h
    unfold changes
    dsimp only
    rw [if_pos h.1.1]
    exact fills_writeFiles env _ _ h.1.2 file
  obtain ⟨ok, hok, hchange⟩ := changeOf_of_mem (mem_of_lastWrite hc)
  rw [hok h] at hchange
  cases c? with
  | none => exact absurd hc hfills
  | some c =>
      refine ⟨c, hc, ?_⟩
      rcases hchange with ⟨hfile, hnone | ⟨target, hlink⟩⟩ | ⟨-, ⟨nodes, hnodes, hmarked⟩ | ⟨hfalse, -⟩⟩
      · cases hnone
      · exact Or.inl ⟨congrArg File.dir hfile, target, Option.some.inj hlink⟩
      · exact Or.inr ⟨nodes, Option.some.inj hnodes, hmarked⟩
      · cases hfalse

theorem contentOf_ne_none {hook : HookFile} (h : completes env hook = true) {file : File}
    (hwrite : (lastWrite (changes env hook) file).isSome = true) : contentOf env hook file ≠ none := by
  obtain ⟨c, hc, -⟩ := exists_contentOf h hwrite
  unfold contentOf
  rw [hc]
  exact Option.some_ne_none c

theorem published_eq (hooks : List HookFile) (file : File) :
    published env hooks file =
      (lastWriter (changes env) hooks file).bind fun hook => contentOf env hook file := by
  unfold published contentOf
  rw [lastWrite_flatMap]
  cases lastWriter (changes env) hooks file <;> rfl

theorem eq_of_contentOf {dir : HooksDir} {hook other : HookFile} (h : hook ∈ dir.hooks)
    (h' : other ∈ dir.hooks) (hcompletes : completes env hook = true)
    (hcompletes' : completes env other = true) {file : File}
    (hwrite : (lastWrite (changes env hook) file).isSome = true)
    (hwrite' : (lastWrite (changes env other) file).isSome = true)
    (he : contentOf env hook file = contentOf env other file) : hook = other := by
  obtain ⟨c, hc, -⟩ := exists_contentOf hcompletes hwrite
  obtain ⟨c', hc', -⟩ := exists_contentOf hcompletes' hwrite'
  unfold contentOf at he
  rw [hc, hc'] at he
  obtain rfl : c = c' := Option.some.inj he
  by_contra hne
  exact changes_distinct h h' hne hcompletes (mem_of_lastWrite hc) (mem_of_lastWrite hc')

/-! ### One run -/

theorem generated_eq_some {content : File → Option Content} {file : File} {c : Content}
    (h : generated env content file = some c) :
    content file = some c ∧ isGenerated env c = true :=
  Option.filter_eq_some_iff.mp h

theorem isStale_of_isMarked {appId : String} {nodes : List Markup.Node}
    (h : IsMarked env appId nodes) (new : HooksDir) :
    isStale env new nodes = !new.entryList.any (Wildcard.accepts (hookFileName appId)) := by
  unfold isStale
  rw [h.1, h.2, Bool.true_and]

theorem removed_iff (hs : Succeeds env) (new : HooksDir) {content : File → Option Content}
    {hook : HookFile} {file : File} {c : Content}
    (hc : content file = some c) (horigin : (file.dir = "qml-plugins" ∧ ∃ target, c = .link target) ∨
      ∃ nodes, c = .document nodes ∧ IsMarked env hook.appId nodes) :
    Removed env new content file ↔ ¬ Kept env new hook file := by
  have hfile {fileType : FileType} (hdir : file.dir = fileType.dir) :
      (⟨fileType.dir, file.name⟩ : File) = file := File.ext hdir.symm rfl
  constructor
  · rintro ⟨-, fileType, hdir, hplain, hreadable, haccepted, c', hc', hstale⟩ hkept
    rw [hfile hdir] at hreadable hc'
    have hfound := hkept fileType hdir hplain hreadable haccepted
    obtain rfl := Option.some.inj (hc'.symm.trans hc)
    rcases horigin with ⟨hlink, -⟩ | ⟨nodes, rfl, hmarked⟩
    · exact fileType.dir_ne (hdir.symm.trans hlink)
    · have hstays := isStale_of_isMarked hmarked new
      rw [hfound] at hstays
      exact Bool.false_ne_true (hstays.symm.trans hstale)
  · intro hnot
    unfold Kept at hnot
    push Not at hnot
    obtain ⟨fileType, hdir, hplain, hreadable, haccepted, hmissing⟩ := hnot
    refine ⟨hs.removes file, fileType, hdir, hplain, ?_, haccepted, c, ?_, ?_⟩
    · rw [hfile hdir]
      exact hreadable
    · rw [hfile hdir]
      exact hc
    · rcases horigin with ⟨hlink, -⟩ | ⟨nodes, rfl, hmarked⟩
      · exact absurd (hdir.symm.trans hlink) fileType.dir_ne
      · refine (isStale_of_isMarked hmarked new).trans ?_
        rw [Bool.eq_false_iff.mpr hmissing]
        rfl

section

variable {new : HooksDir} {s : State}

/-- A file that a manifest is processed for comes from the last of these manifests. -/
theorem generated_run_of_pending (hvalid : ∀ hook ∈ new.hooks, completes env hook = true)
    {file : File} {hook : HookFile}
    (h : lastWriter (changes env) (pending s.processed new.hooks) file = some hook) :
    generated env (run env new s).accounts.content file = contentOf env hook file := by
  obtain ⟨hmem, hwrite⟩ := lastWriter_eq_some h
  obtain ⟨c, hc, horigin⟩ := exists_contentOf (hvalid hook (List.mem_of_mem_filter hmem)) hwrite
  have hgenerated : isGenerated env c = true := by
    rcases horigin with ⟨-, target, rfl⟩ | ⟨nodes, rfl, -, hcreated⟩
    · rfl
    · exact hcreated
  unfold generated contentOf
  rw [run_content, lastWrite_flatMap, h, Option.bind_some, hc]
  exact Option.filter_eq_some_iff.mpr ⟨rfl, hgenerated⟩

theorem generated_run_of_not_pending {file : File}
    (h : lastWriter (changes env) (pending s.processed new.hooks) file = none) :
    Removed env new s.accounts.content file ∧
        generated env (run env new s).accounts.content file = none ∨
      ¬ Removed env new s.accounts.content file ∧
        generated env (run env new s).accounts.content file =
          generated env s.accounts.content file := by
  unfold generated
  rw [run_content, lastWrite_flatMap, h, Option.bind_none, Option.getD_none]
  rcases removeStaleFiles_content_cases env new s file with ⟨hremoved, hnone⟩ | ⟨hstays, hsame⟩
  · rw [hnone]
    exact Or.inl ⟨hremoved, rfl⟩
  · rw [hsame]
    exact Or.inr ⟨hstays, rfl⟩

end

theorem generated_run_blank {new : HooksDir} (hvalid : ∀ hook ∈ new.hooks, completes env hook = true)
    {blank : State} (h : Blank env blank) :
    generated env (run env new blank).accounts.content = published env new.hooks := by
  have hpending : pending blank.processed new.hooks = new.hooks := by
    unfold pending upToDate
    rw [List.filter_eq_self]
    intro hook _
    rw [h.markers]
    rfl
  funext file
  rw [published_eq]
  cases hlast : lastWriter (changes env) new.hooks file with
  | some hook =>
      rw [← hpending] at hlast
      exact generated_run_of_pending hvalid hlast
  | none =>
      rw [← hpending] at hlast
      rcases generated_run_of_not_pending hlast with ⟨-, hnone⟩ | ⟨-, hsame⟩
      · exact hnone
      · exact hsame.trans (h.files file)

/-! ### The history -/

/-- The program is done with the manifests of a session, and what it has generated is what they
publish. -/
structure Settled (env : Environment) (s : Session) : Prop where
  valid : ∀ hook ∈ s.hooksDir.hooks, completes env hook = true
  marked : ∀ hook ∈ s.hooksDir.hooks, upToDate s.state.processed hook = true
  unmarked : ∀ name ∉ s.hooksDir.entryList, s.state.processed name = none
  files : generated env s.state.accounts.content = published env s.hooksDir.hooks

theorem Settled.pending_eq {s : Session} (h : Settled env s) (new : HooksDir) :
    pending s.state.processed new.hooks = added s.hooksDir new := by
  apply List.filter_congr
  intro hook _
  congr 1
  rw [Bool.eq_iff_iff, List.any_eq_true]
  constructor
  · intro hup
    have htime := of_decide_eq_true hup
    have hlisted : hook.fileName ∈ s.hooksDir.entryList := by
      by_contra hmissing
      rw [h.unmarked _ hmissing] at htime
      cases htime
    rcases List.mem_append.mp hlisted with hold | hother
    · obtain ⟨hook', hmem, hname⟩ := List.mem_map.mp hold
      refine ⟨hook', hmem, decide_eq_true ⟨hname, ?_⟩⟩
      have htime' := of_decide_eq_true (h.marked hook' hmem)
      rw [hname, htime] at htime'
      exact (Option.some.inj htime').symm
    · refine absurd ?_ (s.hooksDir.foreign _ hother)
      unfold HookFile.fileName
      rw [String.toList_append]
      exact List.suffix_append _ _
  · rintro ⟨hook', hmem, hsame⟩
    obtain ⟨hname, htime⟩ := of_decide_eq_true hsame
    have hmarked := of_decide_eq_true (h.marked hook' hmem)
    rw [hname, htime] at hmarked
    exact decide_eq_true hmarked

theorem Update.mem_old {old new : HooksDir} (h : Update env old new) {hook : HookFile}
    (hmem : hook ∈ new.hooks) (hnot : hook ∉ added old new) : hook ∈ old.hooks := by
  unfold added at hnot
  rw [List.mem_filter, not_and, Bool.not_eq_true', Bool.not_eq_false, List.any_eq_true] at hnot
  obtain ⟨hook', hold, hsame⟩ := hnot hmem
  obtain ⟨hname, htime⟩ := of_decide_eq_true hsame
  rw [h.versions hook hmem hook' hold hname.symm htime.symm]
  exact hold

/-- A file that no new manifest writes comes from the last manifest that wrote it before, unless
it is removed. -/
theorem Settled.file_run (hs : Succeeds env) {s : Session} (h : Settled env s) (new : HooksDir)
    {file : File} (hadded : lastWriter (changes env) (added s.hooksDir new) file = none) :
    generated env (run env new s.state).accounts.content file = none ∧
        (∀ hook, lastWriter (changes env) s.hooksDir.hooks file = some hook →
          ¬ Kept env new hook file) ∨
      ∃ hook, lastWriter (changes env) s.hooksDir.hooks file = some hook ∧
        Kept env new hook file ∧
        generated env (run env new s.state).accounts.content file = contentOf env hook file := by
  have hfiles := congrFun h.files file
  rw [published_eq] at hfiles
  rw [← h.pending_eq new] at hadded
  have hrun := generated_run_of_not_pending hadded
  cases hold : lastWriter (changes env) s.hooksDir.hooks file with
  | none =>
      rw [hold] at hfiles
      left
      refine ⟨?_, fun hook hhook => by cases hhook⟩
      rcases hrun with ⟨-, hnone⟩ | ⟨-, hsame⟩
      · exact hnone
      · exact hsame.trans hfiles
  | some hook =>
      obtain ⟨hhook, hwrite⟩ := lastWriter_eq_some hold
      obtain ⟨c, hc, horigin⟩ := exists_contentOf (h.valid hook hhook) hwrite
      rw [hold, Option.bind_some] at hfiles
      have hcontent : contentOf env hook file = some c := by
        unfold contentOf
        rw [hc]
        rfl
      have hstored := (generated_eq_some (hfiles.trans hcontent)).1
      have hiff := removed_iff hs new hstored horigin
      rcases hrun with ⟨hremoved, hnone⟩ | ⟨hstays, hsame⟩
      · left
        refine ⟨hnone, ?_⟩
        intro hook' hhook'
        obtain rfl := Option.some.inj hhook'
        exact hiff.mp hremoved
      · right
        exact ⟨hook, rfl, not_not.mp fun hnot => hstays (hiff.mpr hnot), hsame.trans hfiles⟩

/-- The last manifest that writes a file is the last of the new ones, if it is new. -/
theorem lastWriter_added {old new : HooksDir} {file : File} {hook : HookFile}
    (hlast : lastWriter (changes env) new.hooks file = some hook) (hmem : hook ∈ added old new) :
    lastWriter (changes env) (added old new) file = some hook :=
  lastWriter_filter hlast (List.mem_filter.mp hmem).2

theorem Settled.file_run_iff_of_added {s : Session} (h : Settled env s) {new : HooksDir}
    (hvalid : ∀ hook ∈ new.hooks, completes env hook = true) {file : File} {first : HookFile}
    (hadded : lastWriter (changes env) (added s.hooksDir new) file = some first) :
    generated env (run env new s.state).accounts.content file = published env new.hooks file ↔
      CleanFile env s.hooksDir new file := by
  obtain ⟨hfirst, hwrite⟩ := lastWriter_eq_some hadded
  have hfirst' : first ∈ new.hooks := List.mem_of_mem_filter hfirst
  have hcontent : generated env (run env new s.state).accounts.content file =
      contentOf env first file := by
    apply generated_run_of_pending hvalid
    rw [h.pending_eq new]
    exact hadded
  rw [hcontent, published_eq]
  unfold CleanFile
  cases hlast : lastWriter (changes env) new.hooks file with
  | none =>
      rw [lastWriter_eq_none_iff] at hlast
      rw [hlast first hfirst'] at hwrite
      cases hwrite
  | some hook =>
      obtain ⟨hhook, hwrite'⟩ := lastWriter_eq_some hlast
      constructor
      · intro he
        have hsame := eq_of_contentOf hfirst' hhook (hvalid _ hfirst') (hvalid _ hhook) hwrite
          hwrite' he
        exact Or.inl (hsame ▸ hfirst)
      · rintro (hmem | ⟨-, -, hothers⟩)
        · rw [lastWriter_added hlast hmem] at hadded
          rw [Option.some.inj hadded]
          rfl
        · rw [hothers first hfirst] at hwrite
          cases hwrite

theorem Settled.file_run_iff_of_not_added (hs : Succeeds env) {s : Session} (h : Settled env s)
    {new : HooksDir} (hupdate : Update env s.hooksDir new) {file : File}
    (hadded : lastWriter (changes env) (added s.hooksDir new) file = none) :
    generated env (run env new s.state).accounts.content file = published env new.hooks file ↔
      CleanFile env s.hooksDir new file := by
  have hleft := h.file_run hs new hadded
  rw [published_eq]
  unfold CleanFile
  cases hlast : lastWriter (changes env) new.hooks file with
  | none =>
      rcases hleft with ⟨hnone, hnot⟩ | ⟨hook, hold, hkept, hgenerated⟩
      · exact iff_of_true hnone hnot
      · obtain ⟨hmem, hwrite⟩ := lastWriter_eq_some hold
        refine iff_of_false ?_ fun hall => hall hook hold hkept
        rw [hgenerated]
        exact contentOf_ne_none (h.valid hook hmem) hwrite
  | some hook =>
      have hnot : hook ∉ added s.hooksDir new := by
        intro hmem
        rw [lastWriter_added hlast hmem] at hadded
        cases hadded
      obtain ⟨hhook, hwrite⟩ := lastWriter_eq_some hlast
      have hvalid := completes_of_accepted hs (hupdate.valid hook hhook)
      have hhook' := hupdate.mem_old hhook hnot
      rcases hleft with ⟨hnone, hgone⟩ | ⟨hook', hold, hkept, hgenerated⟩
      · refine iff_of_false ?_ ?_
        · rw [hnone]
          exact (contentOf_ne_none hvalid hwrite).symm
        · rintro (hmem | ⟨hold, hkept, -⟩)
          · exact hnot hmem
          · exact hgone hook hold hkept
      · obtain ⟨hmem', hwrite'⟩ := lastWriter_eq_some hold
        rw [hgenerated]
        constructor
        · intro he
          have hsame := eq_of_contentOf hmem' hhook' (h.valid _ hmem') hvalid hwrite' hwrite he
          rw [hsame] at hold hkept
          exact Or.inr ⟨hold, hkept, lastWriter_eq_none_iff.mp hadded⟩
        · rintro (hmem | ⟨hold', -, -⟩)
          · exact absurd hmem hnot
          · rw [Option.some.inj (hold.symm.trans hold')]
            rfl

/-- After a change the files are what the manifests publish exactly if the change is clean. -/
theorem Settled.files_run_iff (hs : Succeeds env) {s : Session} (h : Settled env s)
    {new : HooksDir} (hupdate : Update env s.hooksDir new) :
    generated env (run env new s.state).accounts.content = published env new.hooks ↔
      Clean env s.hooksDir new := by
  rw [funext_iff]
  apply forall_congr'
  intro file
  cases hadded : lastWriter (changes env) (added s.hooksDir new) file with
  | some first =>
      apply h.file_run_iff_of_added _ hadded
      intro hook hmem
      exact completes_of_accepted hs (hupdate.valid hook hmem)
  | none => exact h.file_run_iff_of_not_added hs hupdate hadded

theorem Settled.run (hs : Succeeds env) {s : Session} (h : Settled env s) {new : HooksDir}
    (hupdate : Update env s.hooksDir new) (hclean : Clean env s.hooksDir new) :
    Settled env ⟨new, AccountsHook.run env new s.state⟩ where
  valid hook hmem := completes_of_accepted hs (hupdate.valid hook hmem)
  marked hook hmem := by
    rw [(run_cases s.state).2.2 hook hmem, completes_of_accepted hs (hupdate.valid hook hmem),
      Bool.or_true]
  unmarked name hname := by
    rw [run_processed s.state fun hmem => hname (List.mem_append_left _ hmem)]
    exact if_pos ⟨hname, hs.removesMarker name⟩
  files := (h.files_run_iff hs hupdate).mpr hclean

theorem historyIndependent_iff {s : Session}
    (hvalid : ∀ hook ∈ s.hooksDir.hooks, completes env hook = true) :
    HistoryIndependent env s ↔
      generated env s.state.accounts.content = published env s.hooksDir.hooks := by
  constructor
  · intro h
    have hblank : Blank env {} := ⟨fun _ => rfl, fun _ => rfl⟩
    exact (h {} hblank).trans (generated_run_blank hvalid hblank)
  · intro h blank hblank
    exact h.trans (generated_run_blank hvalid hblank).symm

/-- **History independence**: in a history of clean changes the generated files never depend on
the history, and after the next change they do not exactly if it is clean as well. -/
theorem history_independent_iff (env : Environment) (hs : Succeeds env) (start : State)
    (hblank : Blank env start) {s : Session}
    (h : Reachable (machine env start)
      (fun s new => Update env s.hooksDir new ∧ Clean env s.hooksDir new) s) :
    HistoryIndependent env s ∧ ∀ new, Update env s.hooksDir new →
      (HistoryIndependent env ⟨new, run env new s.state⟩ ↔ Clean env s.hooksDir new) := by
  have hsettled : Settled env s := by
    apply h.invariant
    · refine ⟨?_, ?_, fun name _ => hblank.markers name, funext hblank.files⟩
      · exact fun hook hmem => absurd hmem List.not_mem_nil
      · exact fun hook hmem => absurd hmem List.not_mem_nil
    · rintro s new s' hsettled ⟨hupdate, hclean⟩ hrun
      obtain rfl := Except.ok.inj hrun
      exact hsettled.run hs hupdate hclean
  refine ⟨(historyIndependent_iff hsettled.valid).mpr hsettled.files, ?_⟩
  intro new hupdate
  rw [← hsettled.files_run_iff hs hupdate]
  apply historyIndependent_iff
  exact fun hook hmem => completes_of_accepted hs (hupdate.valid hook hmem)

/-- The first packages are always installed cleanly. -/
theorem clean_empty (new : HooksDir) : Clean env .empty new := by
  intro file
  unfold CleanFile
  cases hlast : lastWriter (changes env) new.hooks file with
  | some hook => exact Or.inl (List.mem_filter.mpr ⟨(lastWriter_eq_some hlast).1, rfl⟩)
  | none =>
      intro hook hold
      cases hold

/-- The first version of an application has two services, and the second one has one of them. -/
def twoServices : HooksDir where
  hooks := [servicesFor "com.ubuntu.test_app_1" 10 ["facebook", "google"]]
  named := by decide
  single := by decide
  foreign := foreign_nil

def oneService : HooksDir where
  hooks := [servicesFor "com.ubuntu.test_app_2" 20 ["google"]]
  named := by decide
  single := by decide
  foreign := foreign_nil

theorem update_twoServices : Update {} .empty twoServices where
  valid := by decide
  versions _ _ hook' hmem := absurd hmem List.not_mem_nil

theorem update_oneService : Update {} twoServices oneService where
  valid := by decide
  versions hook hmem hook' hmem' hname := by
    obtain rfl := List.mem_singleton.mp hmem
    obtain rfl := List.mem_singleton.mp hmem'
    exact absurd hname (by decide)

theorem history_independent_iff_installed :
    HistoryIndependent {} ⟨twoServices, run {} twoServices {}⟩ ∧
      ∀ new, Update {} twoServices new →
        (HistoryIndependent {} ⟨new, run {} new (run {} twoServices {})⟩ ↔
          Clean {} twoServices new) := by
  have hblank : Blank {} {} := ⟨fun _ => rfl, fun _ => rfl⟩
  have hreachable : Reachable (machine {} {})
      (fun s new => Update {} s.hooksDir new ∧ Clean {} s.hooksDir new)
      ⟨twoServices, run {} twoServices {}⟩ :=
    Reachable.start.step ⟨update_twoServices, clean_empty twoServices⟩ rfl
  exact history_independent_iff {} ⟨fun _ => rfl, fun _ => rfl, fun _ => rfl⟩ {} hblank hreachable

/-- The file of a service that an upgrade has dropped stays. -/
theorem dropped_service_stays :
    Update {} .empty twoServices ∧ Update {} twoServices oneService ∧
      ∃ s, (machine {} {}).run ⟨.empty, {}⟩ [twoServices, oneService] = .ok s ∧
        ¬ HistoryIndependent {} s := by
  have hblank : Blank {} {} := ⟨fun _ => rfl, fun _ => rfl⟩
  have hrun : (machine {} {}).run ⟨.empty, {}⟩ [twoServices, oneService] =
      .ok ⟨oneService, run {} oneService (run {} twoServices {})⟩ := rfl
  have hstays : (generated {} (run {} oneService (run {} twoServices {})).accounts.content
      ⟨"services", "com.ubuntu.test_app_facebook.service"⟩).isSome = true := by
    decide +kernel
  have hnew : (generated {} (run {} oneService {}).accounts.content
      ⟨"services", "com.ubuntu.test_app_facebook.service"⟩).isSome = false := by
    decide +kernel
  have hdiffers :
      ¬ HistoryIndependent {} ⟨oneService, run {} oneService (run {} twoServices {})⟩ := by
    intro h
    have hsame := congrFun (h {} hblank) ⟨"services", "com.ubuntu.test_app_facebook.service"⟩
    dsimp only at hsame
    rw [hsame, hnew] at hstays
    exact Bool.false_ne_true hstays
  exact ⟨update_twoServices, update_oneService, _, hrun, hdiffers⟩

end OnlineAccounts.AccountsHook
