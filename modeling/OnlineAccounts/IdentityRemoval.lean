import OnlineAccounts.IdentityData

/-! # The removal of the data of an identity

`removeIdentityData` is there to remove any data of an identity, which may be in several
directories: one without a provider, from an older version, and one for each provider.  It takes
the directory that `rootDirForIdentity` looks up for the reader, which is only the most recent one,
and leaves the others.

So nothing is left, and no cookies are read any more, exactly if there was at most one directory
that the filter accepts (`identity_removed_iff`). -/

namespace OnlineAccounts.SignOnUi

/-- The only cookies are those in the directories. -/
def CookiesIn (cachePath : String) (dirs : List IdentityDir) (files : String → Option File) : Prop :=
  ∀ path, (files path).isSome = true →
    ∃ dir ∈ dirs, path = dir.path cachePath ++ "/cookies.json"

/-- The removal is complete: the identity has no directory left, and whatever is in the
directories that are left, no cookies are returned for the identity. -/
structure RemovesAll (cachePath : String) (dirs : List IdentityDir) (id : ℕ) : Prop where
  directories : ∀ dir ∈ removeIdentityData cachePath dirs id, dir.identity ≠ id
  cookies : ∀ cookiesFromJson files timestamp,
    CookiesIn cachePath (removeIdentityData cachePath dirs id) files →
      (cookiesForIdentity cookiesFromJson cachePath (removeIdentityData cachePath dirs id) files id
        timestamp).1 = []

/-- At most one directory has a name that starts like those of the identity. -/
def Single (dirs : List IdentityDir) (id : ℕ) : Prop :=
  ∀ dir ∈ dirs, ∀ dir' ∈ dirs, (toString id).toList <+: (toString dir.identity).toList →
    (toString id).toList <+: (toString dir'.identity).toList → dir.name = dir'.name

instance (dirs : List IdentityDir) (id : ℕ) : Decidable (Single dirs id) :=
  inferInstanceAs (Decidable (∀ dir ∈ dirs, ∀ dir' ∈ dirs,
    (toString id).toList <+: (toString dir.identity).toList →
      (toString id).toList <+: (toString dir'.identity).toList → dir.name = dir'.name))

/-! ### What is left -/

theorem path_eq_iff {cachePath : String} {dir dir' : IdentityDir} :
    dir.path cachePath = dir'.path cachePath ↔ dir.name = dir'.name := by
  unfold IdentityDir.path
  simp

theorem removeIdentityData_nil (cachePath : String) {dirs : List IdentityDir} {id : ℕ}
    (h : entryList dirs id = []) : removeIdentityData cachePath dirs id = dirs := by
  have hroot : rootDirForIdentity cachePath dirs id = "" := by
    unfold rootDirForIdentity
    rw [h]
  unfold removeIdentityData
  rw [hroot, if_pos rfl]

theorem mem_removeIdentityData {cachePath : String} {dirs rest : List IdentityDir} {id : ℕ}
    {first dir : IdentityDir} (h : entryList dirs id = first :: rest) :
    dir ∈ removeIdentityData cachePath dirs id ↔ dir ∈ dirs ∧ dir.name ≠ first.name := by
  unfold removeIdentityData
  rw [rootDirForIdentity_cons cachePath h, if_neg (first.path_ne_empty cachePath), List.mem_filter,
    decide_eq_true_iff, ne_eq, path_eq_iff]

/-- There is one file. -/
def oneFile (path : String) : String → Option File :=
  fun path' => if path' = path then some ⟨0, some ""⟩ else none

theorem oneFile_cookiesIn {cachePath : String} {dirs : List IdentityDir} {dir : IdentityDir}
    (h : dir ∈ dirs) : CookiesIn cachePath dirs (oneFile (dir.path cachePath ++ "/cookies.json")) := by
  intro path hpath
  unfold oneFile at hpath
  split_ifs at hpath with heq
  · exact ⟨dir, h, heq⟩
  · cases hpath

/-- No cookies are returned, whatever is in the directories, exactly if the filter accepts none. -/
theorem cookies_nil_iff (cachePath : String) (dirs : List IdentityDir) (id : ℕ) :
    (∀ cookiesFromJson files timestamp, CookiesIn cachePath dirs files →
      (cookiesForIdentity cookiesFromJson cachePath dirs files id timestamp).1 = []) ↔
      entryList dirs id = [] := by
  constructor
  · intro h
    cases hlist : entryList dirs id with
    | nil => rfl
    | cons first rest =>
        exfalso
        -- a file with a cookie in the first directory is read
        have hmem : first ∈ entryList dirs id := hlist ▸ List.mem_cons_self
        have hcookies := h (fun _ => ["cookie"]) _ 0 (oneFile_cookiesIn (mem_entryList.mp hmem).1)
        unfold cookiesForIdentity cookiesFile oneFile at hcookies
        rw [rootDirForIdentity_cons cachePath hlist, if_pos rfl] at hcookies
        cases hcookies
  · intro hlist cookiesFromJson files timestamp hin
    have hnone : files (cookiesFile cachePath dirs id) = none := by
      cases hfile : files (cookiesFile cachePath dirs id) with
      | none => rfl
      | some file =>
          exfalso
          obtain ⟨dir, -, hpath⟩ := hin _ (by rw [hfile]; rfl)
          unfold cookiesFile rootDirForIdentity at hpath
          rw [hlist, String.append_left_inj] at hpath
          exact dir.path_ne_empty cachePath hpath.symm
    unfold cookiesForIdentity
    rw [hnone]

theorem entryList_eq_nil_iff {dirs : List IdentityDir} {id : ℕ} : entryList dirs id = [] ↔
    ∀ dir ∈ dirs, ¬ (toString id).toList <+: (toString dir.identity).toList := by
  rw [List.eq_nil_iff_forall_not_mem]
  simp only [mem_entryList, not_and]

/-- The filter accepts none of the directories that are left exactly if it accepted at most one. -/
theorem entryList_removed_iff (cachePath : String) (dirs : List IdentityDir) (id : ℕ) :
    entryList (removeIdentityData cachePath dirs id) id = [] ↔ Single dirs id := by
  cases h : entryList dirs id with
  | nil =>
      rw [removeIdentityData_nil cachePath h, h]
      rw [entryList_eq_nil_iff] at h
      exact iff_of_true rfl fun dir hdir _ _ hstart _ => absurd hstart (h dir hdir)
  | cons first rest =>
      have hmem : first ∈ entryList dirs id := h ▸ List.mem_cons_self
      obtain ⟨hfirst, hdigits⟩ := mem_entryList.mp hmem
      rw [entryList_eq_nil_iff]
      constructor
      · intro hnone
        have hname (dir : IdentityDir) (hdir : dir ∈ dirs)
            (hstart : (toString id).toList <+: (toString dir.identity).toList) :
            dir.name = first.name := by
          by_contra hne
          exact hnone dir ((mem_removeIdentityData h).mpr ⟨hdir, hne⟩) hstart
        intro dir hdir dir' hdir' hstart hstart'
        rw [hname dir hdir hstart, hname dir' hdir' hstart']
      · intro hsingle dir hdir hstart
        obtain ⟨hdir, hne⟩ := (mem_removeIdentityData h).mp hdir
        exact hne (hsingle dir hdir first hfirst hstart hdigits)

/-! ### The removal -/

/-- **The removal is complete** exactly if at most one directory has a name that starts like those
of the identity. -/
theorem identity_removed_iff (cachePath : String) (dirs : List IdentityDir) (id : ℕ) :
    RemovesAll cachePath dirs id ↔ Single dirs id := by
  rw [← entryList_removed_iff cachePath]
  constructor
  · exact fun h => (cookies_nil_iff cachePath _ id).mp h.cookies
  · intro h
    refine ⟨?_, (cookies_nil_iff cachePath _ id).mpr h⟩
    rw [entryList_eq_nil_iff] at h
    rintro dir hdir rfl
    exact h dir hdir List.prefix_rfl

/-- A directory of an older version stays beside the one that is removed, and its cookies are read
from then on. -/
theorem older_directory_left :
    ¬ RemovesAll "/cache" [⟨1, none, 1000⟩, ⟨1, some "google", 2000⟩] 1 := by
  intro h
  have hsingle := (entryList_removed_iff "/cache" _ 1).mp ((cookies_nil_iff "/cache" _ 1).mp h.cookies)
  have hname := hsingle ⟨1, none, 1000⟩ (by decide) ⟨1, some "google", 2000⟩ (by decide)
    List.prefix_rfl List.prefix_rfl
  revert hname
  decide

end OnlineAccounts.SignOnUi
