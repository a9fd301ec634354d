import OnlineAccounts.Accounts
import OnlineAccounts.Transition

/-! # The access model

`AccessModel` (`online-accounts-ui/access-model.cpp`) filters the rows of an account model: with an
application set, only those accounts are shown on which some service that the application uses is
not enabled yet.  Which services these are depends on the application and on the provider of the
account model.  They are listed when a row is filtered and kept for the next rows; an empty list
stands for "not listed".

`setApplicationId` drops the list, `setAccountModel` does not.  The decisions are those made afresh
as long as an account model is set only when there is no list, or one with the services of the new
provider (`decisions_fresh_iff`). -/

namespace OnlineAccounts

open Accounts Transition

structure AccessModel where
  applicationId : String := ""
  /-- The source model, by its `provider` property. -/
  accountModel : Option String := none
  supportedServices : List Service := []

namespace AccessModel

section

variable (manager : Manager)

/-- The services of a provider that an application uses; an application that does not exist uses
none. -/
def usedServices (applicationId providerId : String) : List Service :=
  let application := manager.application applicationId
  manager.serviceList.filter fun service =>
    service.provider = providerId ∧ ((application.map (·.serviceUsage service)).getD "") ≠ ""

def ensureSupportedServices (m : AccessModel) : AccessModel :=
  if m.supportedServices ≠ [] then m  -- nothing to do
  else
    match m.accountModel with
    | none => m
    | some providerId =>
        if providerId = "" then m
        else
          { m with
            supportedServices :=
              m.supportedServices ++ usedServices manager m.applicationId providerId }

def setAccountModel (accountModel : Option String) (m : AccessModel) : AccessModel :=
  { m with accountModel := accountModel }

def setApplicationId (applicationId : String) (m : AccessModel) : AccessModel :=
  if applicationId = m.applicationId then m
  else { m with applicationId := applicationId, supportedServices := [] }

/-- `filterAcceptsRow`, for a row with an account by the services that are enabled on it. -/
def filterAcceptsRow (account : Option (String → Bool)) (m : AccessModel) : Bool × AccessModel :=
  if m.applicationId = "" then (true, m)
  else
    let m := ensureSupportedServices manager m
    match m.accountModel, account with
    | none, _ => (false, m)  -- `get` cannot be invoked
    | some _, none => (false, m)
    | some _, some isEnabled =>
        let allServicesEnabled := m.supportedServices.all fun service => isEnabled service.name
        (!allServicesEnabled, m)

/-- An access model and the accounts, each by the services that are enabled on it. -/
structure State where
  accessModel : AccessModel := {}
  isEnabled : ℕ → String → Bool

inductive Event where
  | setApplicationId (applicationId : String)
  | setAccountModel (accountModel : Option String)
  | setEnabled (account : ℕ) (service : String) (enabled : Bool)
  /-- A row is filtered, which holds an account or does not. -/
  | filterAcceptsRow (account : Option ℕ)

def State.step (s : State) : Event → State
  | .setApplicationId applicationId =>
      { s with accessModel := s.accessModel.setApplicationId applicationId }
  | .setAccountModel accountModel =>
      { s with accessModel := s.accessModel.setAccountModel accountModel }
  | .setEnabled account service enabled =>
      { s with
        isEnabled := Function.update s.isEnabled account
          (Function.update (s.isEnabled account) service enabled) }
  | .filterAcceptsRow account =>
      { s with accessModel := (filterAcceptsRow manager (account.map s.isEnabled) s.accessModel).2 }

/-- No event fails. -/
def machine (isEnabled : ℕ → String → Bool) : Machine State Event Empty :=
  ⟨{ isEnabled := isEnabled }, fun s e => .ok (s.step manager e)⟩

/-! ### What the decisions should be -/

/-- The services of the provider of the account model that the application uses. -/
def providerServices (m : AccessModel) : List Service :=
  match m.accountModel with
  | none => []
  | some providerId =>
      if providerId = "" then [] else usedServices manager m.applicationId providerId

/-- The decision from the application and the provider of the account model. -/
def freshDecision (isEnabled : String → Bool) (m : AccessModel) : Bool :=
  m.applicationId = "" || (providerServices manager m).any fun service => !isEnabled service.name

/-- Rows with accounts are decided as they should be, whatever services are enabled on the account.
Without an account model there are no rows. -/
def DecidesAfresh (m : AccessModel) : Prop :=
  m.accountModel ≠ none →
    ∀ isEnabled,
      (filterAcceptsRow manager (some isEnabled) m).1 = freshDecision manager isEnabled m

/-- Two lists have the same services. -/
def SameServices (l l' : List Service) : Prop :=
  l.map (·.name) ⊆ l'.map (·.name) ∧ l'.map (·.name) ⊆ l.map (·.name)

instance (l l' : List Service) : Decidable (SameServices l l') :=
  inferInstanceAs (Decidable (_ ∧ _))

/-- There is no list, or it is that of the account model. -/
def ListFits (m : AccessModel) : Prop :=
  m.accountModel = none ∨ m.supportedServices = [] ∨
    SameServices m.supportedServices (providerServices manager m)

instance (m : AccessModel) : Decidable (ListFits manager m) := inferInstanceAs (Decidable (_ ∨ _))

/-- An account model is set only when the list fits it. -/
def Fits (s : State) : Event → Prop
  | .setAccountModel accountModel => ListFits manager (s.accessModel.setAccountModel accountModel)
  | _ => True

instance (s : State) (e : Event) : Decidable (Fits manager s e) := by
  cases e <;> unfold Fits <;> infer_instance

/-! ### The list -/

variable {manager}

theorem ensureSupportedServices_eq (m : AccessModel) :
    ensureSupportedServices manager m =
      { m with
        supportedServices :=
          if m.supportedServices = [] then providerServices manager m
          else m.supportedServices } := by
  obtain ⟨applicationId, accountModel, supportedServices⟩ := m
  by_cases hlist : supportedServices = []
  · subst hlist
    cases accountModel with
    | none => rfl
    | some providerId => by_cases hid : providerId = "" <;>
        simp [ensureSupportedServices, providerServices, hid]
  · simp [ensureSupportedServices, hlist]

/-- Two lists decide alike, whatever is enabled, exactly if they have the same services. -/
theorem forall_any_eq_iff (l l' : List Service) :
    (∀ isEnabled : String → Bool, (l.any fun service => !isEnabled service.name) =
      l'.any fun service => !isEnabled service.name) ↔ SameServices l l' := by
  constructor
  · intro h
    -- with one service not enabled, a list accepts the row if it has the service
    have hmem (k : List Service) (name : String) :
        (k.any fun service => !(service.name != name)) = true ↔ name ∈ k.map (·.name) := by
      simp
    constructor
    · intro name hname
      rw [← hmem] at hname ⊢
      exact (h (· != name)) ▸ hname
    · intro name hname
      rw [← hmem] at hname ⊢
      exact (h (· != name)) ▸ hname
  · rintro ⟨hle, hge⟩ isEnabled
    have hany (k : List Service) : (k.any fun service => !isEnabled service.name) =
        (k.map (·.name)).any fun name => !isEnabled name := by
      rw [List.any_map]
      rfl
    rw [hany, hany, Bool.eq_iff_iff, List.any_eq_true, List.any_eq_true]
    exact ⟨fun ⟨name, hname, hn⟩ => ⟨name, hle hname, hn⟩,
      fun ⟨name, hname, hn⟩ => ⟨name, hge hname, hn⟩⟩

/-! ### Decisions -/

theorem filterAcceptsRow_fst {m : AccessModel} (happ : m.applicationId ≠ "")
    (hmodel : m.accountModel ≠ none) (isEnabled : String → Bool) :
    (filterAcceptsRow manager (some isEnabled) m).1 =
      (if m.supportedServices = [] then providerServices manager m
        else m.supportedServices).any fun service => !isEnabled service.name := by
  rw [filterAcceptsRow, if_neg happ, ensureSupportedServices_eq]
  cases h : m.accountModel with
  | none => exact absurd h hmodel
  | some providerId => simp only [List.not_all_eq_any_not]

theorem filterAcceptsRow_snd (account : Option (String → Bool)) (m : AccessModel) :
    (filterAcceptsRow manager account m).2 =
      if m.applicationId = "" then m else ensureSupportedServices manager m := by
  unfold filterAcceptsRow
  split
  · rfl
  · dsimp only
    cases (ensureSupportedServices manager m).accountModel <;> cases account <;> rfl

/-- There is no list without an application. -/
def NoIdleList (m : AccessModel) : Prop := m.applicationId = "" → m.supportedServices = []

theorem decidesAfresh_iff {m : AccessModel} (hidle : m.NoIdleList) :
    DecidesAfresh manager m ↔ ListFits manager m := by
  by_cases hmodel : m.accountModel = none
  · exact iff_of_true (fun h => absurd hmodel h) (.inl hmodel)
  by_cases happ : m.applicationId = ""
  · refine iff_of_true (fun _ isEnabled => ?_) (.inr (.inl (hidle happ)))
    simp [filterAcceptsRow, freshDecision, happ]
  by_cases hlist : m.supportedServices = []
  · refine iff_of_true (fun _ isEnabled => ?_) (.inr (.inl hlist))
    rw [filterAcceptsRow_fst happ hmodel, if_pos hlist]
    simp [freshDecision, happ]
  · have hfresh (isEnabled : String → Bool) : freshDecision manager isEnabled m =
        (providerServices manager m).any fun service => !isEnabled service.name := by
      simp [freshDecision, happ]
    calc DecidesAfresh manager m
        ↔ ∀ isEnabled, (filterAcceptsRow manager (some isEnabled) m).1 =
            freshDecision manager isEnabled m := ⟨fun h => h hmodel, fun h _ => h⟩
      _ ↔ SameServices m.supportedServices (providerServices manager m) := by
          simp only [filterAcceptsRow_fst happ hmodel, if_neg hlist, hfresh]
          exact forall_any_eq_iff _ _
      _ ↔ ListFits manager m := by
          simp only [ListFits, hmodel, hlist, false_or]

/-! ### One event -/

theorem NoIdleList.step {s : State} (h : s.accessModel.NoIdleList) (e : Event) :
    (s.step manager e).accessModel.NoIdleList := by
  cases e with
  | setApplicationId applicationId =>
      unfold State.step setApplicationId
      dsimp only
      split
      · exact h
      · exact fun _ => rfl
  | setAccountModel accountModel => exact h
  | setEnabled account service enabled => exact h
  | filterAcceptsRow account =>
      show (filterAcceptsRow manager _ _).2.NoIdleList
      rw [filterAcceptsRow_snd]
      split
      · exact h
      · next happ =>
          intro hempty
          rw [ensureSupportedServices_eq] at hempty
          exact absurd hempty happ

theorem ListFits.setApplicationId {m : AccessModel} (h : ListFits manager m)
    (applicationId : String) : ListFits manager (m.setApplicationId applicationId) := by
  unfold AccessModel.setApplicationId
  split
  · exact h
  · exact .inr (.inl rfl)

theorem ListFits.ensureSupportedServices {m : AccessModel} (h : ListFits manager m) :
    ListFits manager (ensureSupportedServices manager m) := by
  rw [ensureSupportedServices_eq]
  by_cases hlist : m.supportedServices = []
  · rw [if_pos hlist]
    exact .inr (.inr ⟨List.Subset.refl _, List.Subset.refl _⟩)
  · rw [if_neg hlist]
    exact h

/-- One event keeps the list fitting exactly if it sets no account model that the list does not
fit. -/
theorem ListFits.step_iff {s : State} (h : ListFits manager s.accessModel) (e : Event) :
    ListFits manager (s.step manager e).accessModel ↔ Fits manager s e := by
  cases e with
  | setApplicationId applicationId => exact iff_of_true (h.setApplicationId applicationId) trivial
  | setAccountModel accountModel => exact Iff.rfl
  | setEnabled account service enabled => exact iff_of_true h trivial
  | filterAcceptsRow account =>
      refine iff_of_true ?_ trivial
      show ListFits manager (filterAcceptsRow manager _ _).2
      rw [filterAcceptsRow_snd]
      split
      · exact h
      · exact h.ensureSupportedServices

/-! ### All runs -/

/-- As long as every account model that is set fits the list, rows are decided as they should be;
and this stays so with the next event exactly if that is no account model that does not fit. -/
theorem decisions_fresh_iff {isEnabled : ℕ → String → Bool} {s : State}
    (h : Reachable (machine manager isEnabled) (Fits manager) s) :
    DecidesAfresh manager s.accessModel ∧
      ∀ e, DecidesAfresh manager (s.step manager e).accessModel ↔ Fits manager s e := by
  obtain ⟨hidle, hfits⟩ : s.accessModel.NoIdleList ∧ ListFits manager s.accessModel := by
    refine h.invariant (I := fun s => s.accessModel.NoIdleList ∧ ListFits manager s.accessModel)
      ⟨fun _ => rfl, .inl rfl⟩ ?_
    intro s e s' hs hg hstep
    obtain rfl := Except.ok.inj hstep
    exact ⟨hs.1.step e, (hs.2.step_iff e).2 hg⟩
  refine ⟨(decidesAfresh_iff hidle).2 hfits, fun e => ?_⟩
  rw [decidesAfresh_iff (hidle.step e)]
  exact hfits.step_iff e

end

/-! ### An application with a service of each of two providers -/

def mail : Service := { name := "example-mail", provider := "example" }

def chat : Service := { name := "other-chat", provider := "other" }

/-- Both services are used by the application `reader`. -/
def twoProviders : Manager :=
  { serviceList := [mail, chat]
    application := fun id =>
      if id = "reader" then some { name := "reader", serviceUsage := fun _ => "reads" } else none }

/-- Account 1 has the mail service enabled, account 2 the chat. -/
def oneEach (account : ℕ) (service : String) : Bool :=
  (account = 1 && service = "example-mail") || (account = 2 && service = "other-chat")

/-- The rows of one provider are filtered, then those of the other for no application and again for
the first one. -/
theorem decisions_fresh_iff_twoProviders :
    ∃ s, (machine twoProviders oneEach).run { isEnabled := oneEach }
        [.setAccountModel (some "example"), .setApplicationId "reader", .filterAcceptsRow (some 1),
          .setEnabled 1 "example-mail" false, .filterAcceptsRow (some 1), .setApplicationId "",
          .setAccountModel (some "other"), .setApplicationId "reader",
          .filterAcceptsRow (some 2)] = .ok s ∧
      DecidesAfresh twoProviders s.accessModel ∧
        ∀ e, DecidesAfresh twoProviders (s.step twoProviders e).accessModel ↔
          Fits twoProviders s e := by
  refine (exists_reachable (machine twoProviders oneEach) (Fits twoProviders) _ ?_ ?_).imp
    fun s h => ⟨h.1, decisions_fresh_iff h.2⟩
  · decide
  · decide

/-- The account model is replaced by one of another provider: account 2 has all its services enabled
and is shown. -/
theorem stale_list_decides :
    ∃ s, (machine twoProviders oneEach).run { isEnabled := oneEach }
        [.setApplicationId "reader", .setAccountModel (some "example"), .filterAcceptsRow (some 1),
          .setAccountModel (some "other")] = .ok s ∧
      s.accessModel.accountModel ≠ none ∧
      (filterAcceptsRow twoProviders (some (s.isEnabled 2)) s.accessModel).1 = true ∧
      freshDecision twoProviders (s.isEnabled 2) s.accessModel = false := by
  refine ⟨_, rfl, ?_⟩
  decide

end AccessModel

end OnlineAccounts
