import OnlineAccounts.HookRuns

/-! # The second hook program recognises its own documents

The documents of a manifest are made of texts, settings and keys that the package controls.  A later
run of the program looks into them for the comment with its mark, and for the element with the
profile (`LibAccountsFile`).  It finds both, whatever the manifest says: everything else below the
root has another tag than the profile (`documents_recognised`).  The documents that a manifest
writes are of this kind, unless writing fails (`recognised_of_mem_writeFiles`). -/

namespace OnlineAccounts.AccountsHook

open Markup

/-- The elements with a tag. -/
def elementsWith (tag : String) (ns : List Node) : List Element :=
  ns.filterMap fun n => n.toElement.filter (·.tag = tag)

/-- The program finds its mark in a document, and an application id as the profile; the profile is
in an element of its own, and no other element below the root has this tag. -/
structure Recognised (env : Environment) (appId : String) (nodes : List Node) : Prop where
  createdByUs_eq : createdByUs env nodes = true
  profile_eq : profile nodes = appId
  only : ∃ root, documentElement nodes = some root ∧
    elementsWith "profile" root.children = [Element.ofText "profile" appId]

/-! ### The parts of the documents -/

theorem elementsWith_append (tag : String) (ns ms : List Node) :
    elementsWith tag (ns ++ ms) = elementsWith tag ns ++ elementsWith tag ms :=
  List.filterMap_append

theorem elementsWith_of_tag_ne {tag tag' : String} (h : tag' ≠ tag)
    (attributes : List (String × String)) (children : List Node) (ns : List Node) :
    elementsWith tag (.element tag' attributes children :: ns) = elementsWith tag ns := by
  simp [elementsWith, Node.toElement, h]

theorem elementsWith_textElement {tag tag' : String} (h : tag' ≠ tag) (text : String)
    (ns : List Node) :
    elementsWith tag (ManifestFile.textElement tag' text :: ns) = elementsWith tag ns :=
  elementsWith_of_tag_ne h _ _ ns

theorem elementsWith_optional {tag tag' : String} (h : tag' ≠ tag) (leftOut : Prop)
    [Decidable leftOut] (attributes : List (String × String)) (children : List Node) :
    elementsWith tag (if leftOut then [] else [.element tag' attributes children]) = [] := by
  split
  · rfl
  · exact elementsWith_of_tag_ne h attributes children []

variable (m : ManifestFile)

theorem elementsWith_addProfile (ns : List Node) :
    elementsWith "profile" (m.addProfile :: ns) =
      Element.ofText "profile" m.appId :: elementsWith "profile" ns := rfl

theorem elementsWith_addPackageDir : elementsWith "profile" m.addPackageDir = [] := by
  have h : "package-dir" ≠ "profile" := by decide
  exact elementsWith_optional h _ _ _

theorem elementsWith_addTranslations : elementsWith "profile" m.addTranslations = [] := by
  have h : "translations" ≠ "profile" := by decide
  exact elementsWith_optional h _ _ _

/-- The settings and the keys are below an element with another tag. -/
theorem elementsWith_addTemplate (json : QJsonObject) :
    elementsWith "profile" (ManifestFile.addTemplate json) = [] :=
  elementsWith_optional (by decide) _ _ _

/-! ### The documents -/

theorem IsMarked.recognised {env : Environment} {appId : String} {root : Element}
    (h : IsMarked env appId (ManifestFile.createDocument env.toSurroundings root))
    (honly : elementsWith "profile" root.children = [Element.ofText "profile" appId]) :
    Recognised env appId (ManifestFile.createDocument env.toSurroundings root) :=
  ⟨h.2, h.1, root, rfl, honly⟩

variable (env : Environment)

theorem recognised_serviceDocument (json : QJsonObject) :
    Recognised env m.appId (m.serviceDocument env.toSurroundings json) := by
  refine IsMarked.recognised (m.isMarked_serviceDocument env json) ?_
  simp only [List.cons_append, List.nil_append]
  rw [elementsWith_textElement (by decide), elementsWith_textElement (by decide),
    elementsWith_textElement (by decide), elementsWith_addProfile, elementsWith_append,
    elementsWith_addTranslations, elementsWith_addTemplate, List.append_nil]

theorem recognised_providerDocument (name icon : String) :
    Recognised env m.appId (m.providerDocument env.toSurroundings name icon) := by
  refine IsMarked.recognised (m.isMarked_providerDocument env name icon) ?_
  simp only [List.cons_append, List.nil_append]
  rw [elementsWith_textElement (by decide), elementsWith_textElement (by decide),
    elementsWith_addProfile, elementsWith_append, elementsWith_append,
    elementsWith_addTranslations, elementsWith_addTemplate, elementsWith_addPackageDir,
    List.append_nil, List.append_nil]

theorem recognised_applicationDocument :
    Recognised env m.appId (m.applicationDocument env.toSurroundings) := by
  refine IsMarked.recognised (m.isMarked_applicationDocument env) ?_
  simp only [List.cons_append, List.nil_append, List.append_assoc]
  rw [elementsWith_addProfile, elementsWith_append, elementsWith_addPackageDir,
    List.nil_append, ManifestFile.addDesktopFile, elementsWith_textElement (by decide),
    elementsWith_append, elementsWith_addTranslations, List.nil_append,
    elementsWith_of_tag_ne (by decide)]
  rfl

/-- The services, the provider and the application of any manifest are documents that the program
recognises, with the application id as their profile. -/
theorem documents_recognised :
    (∀ json, Recognised env m.appId (m.serviceDocument env.toSurroundings json)) ∧
      (∀ name icon, Recognised env m.appId (m.providerDocument env.toSurroundings name icon)) ∧
      Recognised env m.appId (m.applicationDocument env.toSurroundings) :=
  ⟨recognised_serviceDocument m env, recognised_providerDocument m env,
    recognised_applicationDocument m env⟩

/-! ### What is written -/

/-- A document that is written is empty, since writing it failed, or recognised. -/
def Recognisable (c : Change) : Prop :=
  ∀ nodes, c.2 = some (.document nodes) → nodes = [] ∨ Recognised env m.appId nodes

variable {m env}

theorem recognisable_writeXmlFile (outcome : WriteOutcome) {nodes : List Node} (file : File)
    (h : Recognised env m.appId nodes) :
    ∀ c ∈ (ManifestFile.writeXmlFile outcome nodes file).1, Recognisable m env c := by
  intro c hc written hwritten
  cases outcome with
  | notOpened => cases hc
  | notWritten removed =>
      cases removed with
      | true =>
          obtain rfl := List.mem_singleton.1 hc
          cases hwritten
      | false =>
          obtain rfl := List.mem_singleton.1 hc
          cases hwritten
          exact .inl rfl
  | written =>
      obtain rfl := List.mem_singleton.1 hc
      cases hwritten
      exact .inr h

theorem recognisable_writeServiceFiles (outcomes : Outcomes) (services : List QJsonValue) (i : ℕ) :
    ∀ c ∈ (m.writeServiceFiles env.toSurroundings outcomes i services).1,
      Recognisable m env c := by
  induction services generalizing i with
  | nil => exact fun c hc => absurd hc List.not_mem_nil
  | cons v services ih =>
      have hfirst := recognisable_writeXmlFile (outcomes.service i)
        (m.serviceFile env.toSurroundings v.toObject)
        (recognised_serviceDocument m env v.toObject)
      intro c hc
      simp only [ManifestFile.writeServiceFiles] at hc
      split_ifs at hc
      · obtain hc | hc := List.mem_append.1 hc
        · exact hfirst c hc
        · exact ih (i + 1) c hc
      · exact hfirst c hc

theorem recognisable_writeProviderFile (outcomes : Outcomes) :
    ∀ c ∈ (m.writeProviderFile env.toSurroundings outcomes).1, Recognisable m env c := by
  unfold ManifestFile.writeProviderFile
  dsimp only
  split_ifs
  · exact fun c hc => absurd hc List.not_mem_nil
  · exact fun c hc => absurd hc List.not_mem_nil
  · exact recognisable_writeXmlFile _ _ (recognised_providerDocument m env _ _)

/-- The link to the QML files is no document. -/
theorem recognisable_writePlugins (outcomes : Outcomes) :
    ∀ c ∈ (m.writePlugins env.toSurroundings outcomes).1, Recognisable m env c := by
  have hunlinked :
      ∀ c ∈ (if outcomes.unlinks then [(m.qmlDestination, none)] else [] : List Change),
        Recognisable m env c := by
    intro c hc nodes hnodes
    split_ifs at hc
    · obtain rfl := List.mem_singleton.1 hc
      cases hnodes
    · cases hc
  have hlinked (target : String) : Recognisable m env (m.qmlDestination, some (.link target)) := by
    intro nodes hnodes
    cases hnodes
  unfold ManifestFile.writePlugins
  dsimp only
  generalize (if outcomes.unlinks then [(m.qmlDestination, none)] else []) = unlinked at hunlinked ⊢
  split_ifs
  · exact fun c hc => absurd hc List.not_mem_nil
  · exact fun c hc => absurd hc List.not_mem_nil
  · exact fun c hc => absurd hc List.not_mem_nil
  · rw [List.forall_mem_append, List.forall_mem_append]
    refine ⟨⟨hunlinked, ?_⟩, recognisable_writeProviderFile outcomes⟩
    exact List.forall_mem_singleton.2 (hlinked _)
  · exact hunlinked

/-- Every document that a manifest writes is recognised, unless writing it fails. -/
theorem recognised_of_mem_writeFiles (outcomes : Outcomes) :
    ∀ c ∈ (m.writeFiles env.toSurroundings outcomes).1, Recognisable m env c := by
  unfold ManifestFile.writeFiles
  dsimp only
  split_ifs
  · rw [List.forall_mem_append, List.forall_mem_append]
    exact ⟨⟨recognisable_writeServiceFiles outcomes _ _, recognisable_writePlugins outcomes⟩,
      recognisable_writeXmlFile _ _ (recognised_applicationDocument m env)⟩
  · rw [List.forall_mem_append]
    exact ⟨recognisable_writeServiceFiles outcomes _ _, recognisable_writePlugins outcomes⟩

end OnlineAccounts.AccountsHook
