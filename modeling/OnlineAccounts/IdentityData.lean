import OnlineAccounts.Wildcard

/-! # The data of an identity

`BrowserRequest` (`browser-request.cpp`) has the web view keep its data in a directory
`id-<identity>-<provider>` of the cache; older versions left out the provider.  The service reads
the cookies of an identity from there, and removes its data (`cookiesForIdentity` and
`removeIdentityData` of `signonui-service.cpp`).  Not knowing the provider, it takes the most
recent directory that matches `id-<identity>*`.

That pattern also matches the directories of all identities whose number starts with the same
digits.  The data are isolated exactly if none of these is more recent than every directory of
the identity (`identity_isolated_iff`). -/

namespace OnlineAccounts.SignOnUi

/-- A directory that a browser request makes for an identity, without a provider in older
versions. -/
structure IdentityDir where
  identity : ℕ
  provider : Option String
  lastModified : ℤ
deriving DecidableEq

namespace IdentityDir

/-- The last component of `BrowserRequestPrivate::rootDirForIdentity()`. -/
def name (dir : IdentityDir) : String :=
  "id-" ++ toString dir.identity ++ match dir.provider with
    | none => ""
    | some provider => "-" ++ provider

def path (cachePath : String) (dir : IdentityDir) : String := cachePath ++ "/" ++ dir.name

/-- The order of `QDir::Time`: the most recent first, and by name if they are equally recent. -/
def sortsBefore (dir dir' : IdentityDir) : Bool :=
  dir'.lastModified < dir.lastModified ∨
    dir.lastModified = dir'.lastModified ∧ dir.name ≤ dir'.name

end IdentityDir

/-- A file: its modification time in milliseconds, and its contents if it can be opened. -/
structure File where
  lastModified : ℤ
  contents : Option String

def nameFilter (id : ℕ) : String := "id-" ++ toString id ++ "*"

/-- `cacheDir.entryList(nameFilter, QDir::Dirs, QDir::Time)`. -/
def entryList (dirs : List IdentityDir) (id : ℕ) : List IdentityDir :=
  (dirs.filter fun dir => Wildcard.accepts (nameFilter id) dir.name).mergeSort
    IdentityDir.sortsBefore

/-- `ServicePrivate::rootDirForIdentity(id)`, empty when there is no directory. -/
def rootDirForIdentity (cachePath : String) (dirs : List IdentityDir) (id : ℕ) : String :=
  match entryList dirs id with
  | [] => ""
  | dir :: _ => dir.path cachePath

/-- `removeIdentityData(id)`: the directories that are left. -/
def removeIdentityData (cachePath : String) (dirs : List IdentityDir) (id : ℕ) : List IdentityDir :=
  let rootDirName := rootDirForIdentity cachePath dirs id
  if rootDirName = "" then dirs else dirs.filter fun dir => dir.path cachePath ≠ rootDirName

/-- The file that `cookiesForIdentity(id)` reads. -/
def cookiesFile (cachePath : String) (dirs : List IdentityDir) (id : ℕ) : String :=
  rootDirForIdentity cachePath dirs id ++ "/cookies.json"

/-- `cookiesForIdentity(id, timestamp)`: the cookies and the new timestamp.  The conversion of the
contents to cookies is given. -/
def cookiesForIdentity (cookiesFromJson : String → List String) (cachePath : String)
    (dirs : List IdentityDir) (files : String → Option File) (id : ℕ) (timestamp : ℤ) :
    List String × ℤ :=
  match files (cookiesFile cachePath dirs id) with
  | none => ([], timestamp)
  | some file => match file.contents with
    | none => ([], file.lastModified.tdiv 1000)
    | some contents => (cookiesFromJson contents, file.lastModified.tdiv 1000)

/-- The data of the identity are isolated: no cookies are read from the directory of another
identity, and the removal leaves the directories of the others. -/
structure Isolated (cachePath : String) (dirs : List IdentityDir) (id : ℕ) : Prop where
  cookies : ∀ dir ∈ dirs,
    cookiesFile cachePath dirs id = dir.path cachePath ++ "/cookies.json" → dir.identity = id
  removal : ∀ dir ∈ dirs, dir.identity ≠ id → dir ∈ removeIdentityData cachePath dirs id

/-- For every directory of another identity whose number starts with the digits of the identity,
there is a directory of the identity that is at least as recent. -/
def Recent (dirs : List IdentityDir) (id : ℕ) : Prop :=
  ∀ dir ∈ dirs, (toString id).toList <+: (toString dir.identity).toList → dir.identity ≠ id →
    ∃ own ∈ dirs, own.identity = id ∧ dir.lastModified ≤ own.lastModified

instance (dirs : List IdentityDir) (id : ℕ) : Decidable (Recent dirs id) :=
  inferInstanceAs (Decidable (∀ dir ∈ dirs,
    (toString id).toList <+: (toString dir.identity).toList → dir.identity ≠ id →
      ∃ own ∈ dirs, own.identity = id ∧ dir.lastModified ≤ own.lastModified))

/-! ### Names -/

theorem isDigit_of_mem_digits {n : ℕ} {c : Char} (h : c ∈ (toString n).toList) :
    c.isDigit = true := by
  rw [Nat.toString_eq_repr, Nat.toList_repr] at h
  exact Nat.isDigit_of_mem_toDigits (by decide : 0 < 10) (by decide : 10 ≤ 10) h

theorem digits_injective {n m : ℕ} (h : (toString n).toList = (toString m).toList) : n = m := by
  rw [Nat.toString_eq_repr, Nat.toString_eq_repr, Nat.toList_repr, Nat.toList_repr] at h
  have hparsed := congrArg (fun digits => Nat.ofDigitChars 10 digits 0) h
  simpa using hparsed

/-- What follows the digits in the name of a directory. -/
def IdentityDir.suffix (dir : IdentityDir) : List Char :=
  match dir.provider with
  | none => []
  | some provider => '-' :: provider.toList

theorem IdentityDir.name_toList (dir : IdentityDir) : dir.name.toList =
    ['i', 'd', '-'] ++ ((toString dir.identity).toList ++ dir.suffix) := by
  unfold name suffix
  cases dir.provider with
  | none => simp
  | some provider => simp

theorem IdentityDir.suffix_head (dir : IdentityDir) :
    ∀ c ∈ dir.suffix.head?, c.isDigit = false := by
  unfold suffix
  cases dir.provider with
  | none => simp
  | some provider => simp

/-- Digits in front of a name are in front of the number that the name starts with. -/
theorem digits_prefix {ds es rest : List Char} (hds : ∀ c ∈ ds, c.isDigit = true)
    (hrest : ∀ c ∈ rest.head?, c.isDigit = false) (h : ds <+: es ++ rest) : ds <+: es := by
  rcases List.prefix_or_prefix_of_prefix h (List.prefix_append es rest) with h' | ⟨fs, rfl⟩
  · exact h'
  · cases fs with
    | nil => simp
    | cons f fs =>
        rw [List.prefix_append_right_inj] at h
        obtain ⟨gs, rfl⟩ := h
        have hdigit := hds f (by simp)
        have hnot := hrest f (by simp)
        simp [hdigit] at hnot

theorem identity_of_name {dir dir' : IdentityDir} (h : dir.name = dir'.name) :
    dir.identity = dir'.identity := by
  have hlist := congrArg String.toList h
  rw [IdentityDir.name_toList, IdentityDir.name_toList, List.append_cancel_left_eq] at hlist
  have hprefix : (toString dir.identity).toList <+: (toString dir'.identity).toList :=
    digits_prefix (fun _ => isDigit_of_mem_digits) dir'.suffix_head (hlist ▸ List.prefix_append _ _)
  have hprefix' : (toString dir'.identity).toList <+: (toString dir.identity).toList :=
    digits_prefix (fun _ => isDigit_of_mem_digits) dir.suffix_head (hlist ▸ List.prefix_append _ _)
  exact digits_injective (List.IsPrefix.eq_of_length_le hprefix hprefix'.length_le)

theorem toLower_of_isDigit {c : Char} (h : c.isDigit = true) : c.toLower = c := by
  unfold Char.toLower
  grind [Char.isDigit, UInt32.le_iff_toNat_le]

theorem eq_of_toLower {c d : Char} (hd : d.isDigit = true) (h : c.toLower = d) : c = d := by
  subst h
  unfold Char.toLower at hd ⊢
  split at hd
  · grind [Char.isDigit, UInt32.toNat_add, Char.toNat_val, UInt32.le_iff_toNat_le]
  · grind

theorem digits_of_toLower {ds es : List Char} (hds : ∀ c ∈ ds, c.isDigit = true)
    (h : es.map Char.toLower = ds.map Char.toLower) : es = ds := by
  induction ds generalizing es with
  | nil => exact List.map_eq_nil_iff.mp h
  | cons d ds ih =>
      cases es with
      | nil => cases h
      | cons e es =>
          obtain ⟨hd, hds⟩ := List.forall_mem_cons.mp hds
          obtain ⟨he, hes⟩ := List.cons.inj h
          rw [toLower_of_isDigit hd] at he
          rw [eq_of_toLower hd he, ih hds hes]

theorem literal_digits (n : ℕ) : Wildcard.Literal (toString n).toList := by
  intro c hc
  have hdigit := isDigit_of_mem_digits hc
  refine ⟨?_, ?_, ?_⟩ <;> rintro rfl <;> cases hdigit

/-- The filter accepts the directories of the identities whose number starts with the digits. -/
theorem accepts_iff (id : ℕ) (dir : IdentityDir) :
    Wildcard.accepts (nameFilter id) dir.name = true ↔
      (toString id).toList <+: (toString dir.identity).toList := by
  have hliteral : Wildcard.Literal ("id-" ++ toString id).toList := by
    rw [String.toList_append]
    exact Wildcard.Literal.append (by decide) (literal_digits id)
  unfold nameFilter
  rw [Wildcard.accepts_start_iff hliteral, IdentityDir.name_toList, String.toList_append,
    List.map_append]
  constructor
  · rintro ⟨cs, hcs, hlower⟩
    obtain ⟨start, ds, rfl, hstart, hds⟩ := List.map_eq_append_iff.mp hlower
    obtain rfl := digits_of_toLower (fun _ => isDigit_of_mem_digits) hds
    have hlength : start.length = 3 := by
      simpa using congrArg List.length hstart
    have hprefix : (toString id).toList <+: (toString dir.identity).toList ++ dir.suffix := by
      have hdrop := List.IsPrefix.drop hcs 3
      rwa [List.drop_left' hlength] at hdrop
    exact digits_prefix (fun _ => isDigit_of_mem_digits) dir.suffix_head hprefix
  · intro hprefix
    refine ⟨['i', 'd', '-'] ++ (toString id).toList, ?_, by simp⟩
    rw [List.prefix_append_right_inj]
    exact hprefix.trans (List.prefix_append _ _)

/-! ### The most recent directory -/

theorem IdentityDir.sortsBefore_iff (dir dir' : IdentityDir) : dir.sortsBefore dir' = true ↔
    dir'.lastModified < dir.lastModified ∨
      dir.lastModified = dir'.lastModified ∧ dir.name ≤ dir'.name := by
  unfold sortsBefore
  exact decide_eq_true_iff

theorem IdentityDir.sortsBefore_total (dir dir' : IdentityDir) :
    (dir.sortsBefore dir' || dir'.sortsBefore dir) = true := by
  rw [Bool.or_eq_true, sortsBefore_iff, sortsBefore_iff]
  rcases lt_trichotomy dir.lastModified dir'.lastModified with h | h | h
  · exact Or.inr (Or.inl h)
  · rcases String.le_total dir.name dir'.name with hname | hname
    · exact Or.inl (Or.inr ⟨h, hname⟩)
    · exact Or.inr (Or.inr ⟨h.symm, hname⟩)
  · exact Or.inl (Or.inl h)

theorem IdentityDir.sortsBefore_trans (dir dir' dir'' : IdentityDir)
    (h : dir.sortsBefore dir' = true) (h' : dir'.sortsBefore dir'' = true) :
    dir.sortsBefore dir'' = true := by
  rw [sortsBefore_iff] at h h' ⊢
  rcases h with h | ⟨h, hname⟩ <;> rcases h' with h' | ⟨h', hname'⟩
  · exact Or.inl (h'.trans h)
  · exact Or.inl (h' ▸ h)
  · exact Or.inl (h ▸ h')
  · exact Or.inr ⟨h.trans h', String.le_trans hname hname'⟩

theorem mem_entryList {dirs : List IdentityDir} {id : ℕ} {dir : IdentityDir} :
    dir ∈ entryList dirs id ↔
      dir ∈ dirs ∧ (toString id).toList <+: (toString dir.identity).toList := by
  unfold entryList
  rw [List.mem_mergeSort, List.mem_filter, accepts_iff]

theorem sortsBefore_of_mem_entryList {dirs rest : List IdentityDir} {id : ℕ}
    {first dir : IdentityDir} (h : entryList dirs id = first :: rest)
    (hdir : dir ∈ entryList dirs id) : first.sortsBefore dir = true := by
  have hsorted : (entryList dirs id).Pairwise fun dir dir' => dir.sortsBefore dir' = true :=
    List.pairwise_mergeSort IdentityDir.sortsBefore_trans IdentityDir.sortsBefore_total _
  rw [h] at hsorted hdir
  rcases List.mem_cons.mp hdir with rfl | hdir
  · simpa using dir.sortsBefore_total dir
  · exact (List.pairwise_cons.mp hsorted).1 dir hdir

/-- Among equally recent directories, those of the identity come before those of the identities
with more digits. -/
theorem name_lt_of_extends {own dir : IdentityDir}
    (h : (toString own.identity).toList <+: (toString dir.identity).toList)
    (hne : dir.identity ≠ own.identity) : own.name < dir.name := by
  obtain ⟨ds, hds⟩ := h
  cases ds with
  | nil =>
      rw [List.append_nil] at hds
      exact absurd (digits_injective hds).symm hne
  | cons d ds =>
      have hdigit : d.isDigit = true := by
        apply isDigit_of_mem_digits (n := dir.identity)
        rw [← hds]
        simp
      rw [String.lt_iff, IdentityDir.name_toList, IdentityDir.name_toList, ← hds,
        List.append_assoc]
      apply List.append_left_lt
      apply List.append_left_lt
      unfold IdentityDir.suffix
      cases own.provider with
      | none => exact List.nil_lt_cons _ _
      | some provider =>
          rw [List.cons_append, List.cons_lt_cons_iff]
          left
          grind [Char.isDigit, UInt32.le_iff_toNat_le, Char.lt_def, UInt32.lt_iff_toNat_lt]

theorem rootDirForIdentity_cons {dirs rest : List IdentityDir} {id : ℕ} {first : IdentityDir}
    (cachePath : String) (h : entryList dirs id = first :: rest) :
    rootDirForIdentity cachePath dirs id = first.path cachePath := by
  unfold rootDirForIdentity
  rw [h]

theorem IdentityDir.path_ne_empty (cachePath : String) (dir : IdentityDir) :
    dir.path cachePath ≠ "" := by
  intro h
  have hlist := congrArg String.toList h
  unfold path at hlist
  simp at hlist

theorem identity_of_path {cachePath : String} {dir dir' : IdentityDir}
    (h : dir.path cachePath = dir'.path cachePath) : dir.identity = dir'.identity := by
  apply identity_of_name
  unfold IdentityDir.path at h
  simpa using h

theorem recent_of_entryList_nil {dirs : List IdentityDir} {id : ℕ}
    (h : entryList dirs id = []) : Recent dirs id := by
  intro dir hdir hprefix
  have hmem := mem_entryList.mpr ⟨hdir, hprefix⟩
  rw [h] at hmem
  cases hmem

theorem isolated_of_entryList_nil (cachePath : String) {dirs : List IdentityDir} {id : ℕ}
    (h : entryList dirs id = []) : Isolated cachePath dirs id := by
  have hroot : rootDirForIdentity cachePath dirs id = "" := by
    unfold rootDirForIdentity
    rw [h]
  constructor
  · intro dir _ hcookies
    unfold cookiesFile at hcookies
    rw [hroot, String.append_left_inj] at hcookies
    exact absurd hcookies.symm (dir.path_ne_empty cachePath)
  · intro dir hdir _
    unfold removeIdentityData
    rwa [hroot, if_pos rfl]

theorem isolated_iff_first (cachePath : String) {dirs rest : List IdentityDir} {id : ℕ}
    {first : IdentityDir} (h : entryList dirs id = first :: rest) :
    Isolated cachePath dirs id ↔ first.identity = id := by
  have hroot := rootDirForIdentity_cons cachePath h
  constructor
  · intro hisolated
    have hmem : first ∈ entryList dirs id := h ▸ List.mem_cons_self
    apply hisolated.cookies first (mem_entryList.mp hmem).1
    unfold cookiesFile
    rw [hroot]
  · intro hfirst
    constructor
    · intro dir _ hcookies
      unfold cookiesFile at hcookies
      rw [hroot, String.append_left_inj] at hcookies
      rw [← identity_of_path hcookies, hfirst]
    · intro dir hdir hne
      unfold removeIdentityData
      rw [hroot, if_neg (first.path_ne_empty cachePath), List.mem_filter, decide_eq_true_iff]
      refine ⟨hdir, ?_⟩
      intro hpath
      apply hne
      rw [identity_of_path hpath, hfirst]

theorem recent_iff_first {dirs rest : List IdentityDir} {id : ℕ} {first : IdentityDir}
    (h : entryList dirs id = first :: rest) : Recent dirs id ↔ first.identity = id := by
  have hmem : first ∈ entryList dirs id := h ▸ List.mem_cons_self
  obtain ⟨hfirst, hprefix⟩ := mem_entryList.mp hmem
  constructor
  · intro hrecent
    by_contra hne
    obtain ⟨own, hown, rfl, hlatest⟩ := hrecent first hfirst hprefix hne
    have hbefore := sortsBefore_of_mem_entryList h (mem_entryList.mpr ⟨hown, List.prefix_rfl⟩)
    rcases (first.sortsBefore_iff own).mp hbefore with hlater | ⟨-, hname⟩
    · omega
    · exact String.not_le.mpr (name_lt_of_extends hprefix hne) hname
  · intro hid dir hdir hdigits _
    refine ⟨first, hfirst, hid, ?_⟩
    have hbefore := sortsBefore_of_mem_entryList h (mem_entryList.mpr ⟨hdir, hdigits⟩)
    rcases (first.sortsBefore_iff dir).mp hbefore with hlater | ⟨hequal, -⟩ <;> omega

/-- The data of an identity are isolated exactly if no other identity whose number starts with its
digits has a more recent directory than all of its own. -/
theorem identity_isolated_iff (cachePath : String) (dirs : List IdentityDir) (id : ℕ) :
    Isolated cachePath dirs id ↔ Recent dirs id := by
  cases h : entryList dirs id with
  | nil =>
      exact iff_of_true (isolated_of_entryList_nil cachePath h) (recent_of_entryList_nil h)
  | cons first rest =>
      rw [isolated_iff_first cachePath h, recent_iff_first h]

/-- What is in the directories of the others makes no difference to isolated cookies. -/
theorem Isolated.cookiesForIdentity_eq {cachePath : String} {dirs : List IdentityDir} {id : ℕ}
    (h : Isolated cachePath dirs id) {files files' : String → Option File}
    (hsame : ∀ path, (∀ dir ∈ dirs, dir.identity ≠ id →
      path ≠ dir.path cachePath ++ "/cookies.json") → files path = files' path)
    (cookiesFromJson : String → List String) (timestamp : ℤ) :
    cookiesForIdentity cookiesFromJson cachePath dirs files id timestamp =
      cookiesForIdentity cookiesFromJson cachePath dirs files' id timestamp := by
  have hfile : files (cookiesFile cachePath dirs id) = files' (cookiesFile cachePath dirs id) := by
    apply hsame
    intro dir hdir hne hcookies
    exact hne (h.cookies dir hdir hcookies)
  unfold cookiesForIdentity
  rw [hfile]

/-- Identity 1 with an older directory than identity 12. -/
def olderThanTwelve : List IdentityDir :=
  [⟨1, some "google", 1000⟩, ⟨12, some "facebook", 2000⟩]

theorem entryList_olderThanTwelve :
    entryList olderThanTwelve 1 = [⟨12, some "facebook", 2000⟩, ⟨1, some "google", 1000⟩] := by
  have hfilter : (olderThanTwelve.filter fun dir =>
      Wildcard.accepts (nameFilter 1) dir.name) = olderThanTwelve := by
    decide +kernel
  unfold entryList
  rw [hfilter]
  simp [olderThanTwelve, List.mergeSort, List.MergeSort.Internal.splitInTwo,
    IdentityDir.sortsBefore]

/-- The cookies of identity 1 are read from the directory of identity 12, and the removal of
identity 1 takes the data of identity 12. -/
theorem other_identity_read_and_removed :
    ¬ Isolated "/cache" olderThanTwelve 1 ∧
      cookiesFile "/cache" olderThanTwelve 1 = "/cache/id-12-facebook/cookies.json" ∧
      removeIdentityData "/cache" olderThanTwelve 1 = [⟨1, some "google", 1000⟩] := by
  have hroot := rootDirForIdentity_cons "/cache" entryList_olderThanTwelve
  refine ⟨?_, ?_, ?_⟩
  · rw [isolated_iff_first "/cache" entryList_olderThanTwelve]
    decide
  · unfold cookiesFile
    rw [hroot]
    decide +kernel
  · unfold removeIdentityData
    rw [hroot]
    decide +kernel

end OnlineAccounts.SignOnUi
