import OnlineAccounts.Acl
import OnlineAccounts.DisabledService

/-! # The switches of the settings page

The page of an account (`ServiceSwitches.qml`, `ServiceItem.qml`) has a switch for each application
that uses one of the services of the account.  All switches under a service show whether the service
is enabled.  Turning one of them enables or disables the service, and adds the application to
the access control list of the credentials or removes it.

So a switch that is on promises access to its application.  The switches keep this promise, from
any state in which they do, exactly if every service has the switch of one application and every
application has the switch of one service, and no application is taken for another one when it is
removed (`switches_truthful_iff`).

`AccountService` and `Credentials` come from outside: what they have been asked for takes effect at
some later event, so the promise is about the states that the services are going to have. -/

namespace OnlineAccounts

/-- A switch: an application under a service of the account. -/
structure ServiceSwitches.Switch where
  service : String
  applicationId : String
deriving DecidableEq

/-- What the two elements do that come from outside: `!=` on the two lists, which may hold for lists
that have the same entries. -/
structure ServiceSwitches.ListComparison where
  differ : List String → List String → Bool
  differ_of_ne : ∀ {l l' : List String}, l ≠ l' → differ l l' = true

structure ServiceSwitches where
  /-- `serviceEnabled` of the services of the account. -/
  serviceEnabled : String → Bool
  /-- The updates of each service that have not taken effect, in the order of the calls. -/
  updating : String → List Bool := fun _ => []
  /-- `credentials.acl`. -/
  acl : List String
  /-- The lists that are being stored with the credentials, in the order of the `sync()` calls. -/
  syncing : List (List String) := []
  /-- The list that is stored with the credentials. -/
  stored : List String

namespace ServiceSwitches

open ApplicationManager

inductive Event where
  /-- The user turns a switch, or it follows the service. -/
  | checkedChanged (switch : Switch) (checked : Bool)
  /-- One of the updates of a service takes effect. -/
  | updated (service : String) (i : ℕ)
  /-- One of the lists that are being stored has been stored. -/
  | synced (i : ℕ)
deriving DecidableEq

variable (manager : Accounts.Manager) (lists : ListComparison)

/-- `credentials.acl = newAcl` and `credentials.sync()`, if there is a difference. -/
def setAcl (newAcl : List String) (p : ServiceSwitches) : ServiceSwitches :=
  if lists.differ newAcl p.acl then { p with acl := newAcl, syncing := p.syncing ++ [newAcl] }
  else p

def onApplicationAdded (applicationId : String) (p : ServiceSwitches) : ServiceSwitches :=
  p.setAcl lists (addApplicationToAcl manager p.acl applicationId)

def onApplicationRemoved (applicationId : String) (p : ServiceSwitches) : ServiceSwitches :=
  p.setAcl lists (removeApplicationFromAcl manager p.acl applicationId)

def updateServiceEnabled (service : String) (enabled : Bool) (p : ServiceSwitches) :
    ServiceSwitches :=
  { p with updating := Function.update p.updating service (p.updating service ++ [enabled]) }

/-- `onCheckedChanged` of a switch. -/
def onCheckedChanged (switch : Switch) (checked : Bool) (p : ServiceSwitches) : ServiceSwitches :=
  if checked ≠ p.serviceEnabled switch.service then
    let p := if checked then p.onApplicationAdded manager lists switch.applicationId
      else p.onApplicationRemoved manager lists switch.applicationId
    p.updateServiceEnabled switch.service checked
  else p

def step (p : ServiceSwitches) : Event → ServiceSwitches
  | .checkedChanged switch checked => p.onCheckedChanged manager lists switch checked
  | .updated service i => match (p.updating service)[i]? with
    | none => p
    | some enabled => { p with
        serviceEnabled := Function.update p.serviceEnabled service enabled
        updating := Function.update p.updating service ((p.updating service).eraseIdx i) }
  | .synced i => match p.syncing[i]? with
    | none => p
    | some acl => { p with stored := acl, syncing := p.syncing.eraseIdx i }

def run (p : ServiceSwitches) (es : List Event) : ServiceSwitches := es.foldl (step manager lists) p

/-- The event is about one of these switches. -/
def Event.About (switches : List Switch) : Event → Prop
  | .checkedChanged switch _ => switch ∈ switches
  | .updated _ _ | .synced _ => True

/-- What was asked for first takes effect first. -/
def Event.InOrder : Event → Prop
  | .checkedChanged _ _ => True
  | .updated _ i | .synced i => i = 0

/-- Whether a service is enabled when all its updates have taken effect. -/
def isOn (p : ServiceSwitches) (service : String) : Bool :=
  (p.updating service).getLast?.getD (p.serviceEnabled service)

/-- A switch is on exactly if its application has access. -/
def Truthful (switches : List Switch) (p : ServiceSwitches) : Prop :=
  ∀ switch ∈ switches, p.isOn switch.service ↔ HasEntry manager p.acl switch.applicationId

instance (acl : List String) (applicationId : String) :
    Decidable (HasEntry manager acl applicationId) :=
  inferInstanceAs (Decidable (∃ entry ∈ acl, IsEntryOf manager applicationId entry))

instance (switches : List Switch) (p : ServiceSwitches) : Decidable (Truthful manager switches p) :=
  inferInstanceAs (Decidable (∀ switch ∈ switches, _ ↔ _))

/-- The list of the page is the last one that is being stored, or it is stored. -/
def Stored (p : ServiceSwitches) : Prop := p.syncing.getLast?.getD p.stored = p.acl

/-- The profile of an application, without its version. -/
def unversioned (applicationId : String) : String :=
  OnlineAccounts.stripVersion (applicationProfile manager applicationId)

/-- Services and applications belong together one to one, and the unversioned profile of an
application is not where the one of another application starts. -/
structure Matched (switches : List Switch) : Prop where
  service_iff : ∀ x ∈ switches, ∀ y ∈ switches,
    x.service = y.service ↔ x.applicationId = y.applicationId
  apart : ∀ x ∈ switches, ∀ y ∈ switches,
    startsWith (unversioned manager y.applicationId) (unversioned manager x.applicationId) →
      x.applicationId = y.applicationId

section

variable {manager lists} {p : ServiceSwitches} {switches : List Switch}

/-! ### One event -/

@[simp] theorem setAcl_acl (newAcl : List String) : (p.setAcl lists newAcl).acl = newAcl := by
  unfold setAcl
  split_ifs with hdiffer
  · rfl
  · by_contra hne
    exact hdiffer (lists.differ_of_ne (Ne.symm hne))

variable (lists p) in
theorem setAcl_services (newAcl : List String) :
    (p.setAcl lists newAcl).serviceEnabled = p.serviceEnabled ∧
      (p.setAcl lists newAcl).updating = p.updating := by
  unfold setAcl
  split_ifs <;> exact ⟨rfl, rfl⟩

/-- Turning a switch calls one of the functions of the application manager. -/
def Switch.toggle (x : Switch) (checked : Bool) : Toggle :=
  if checked then .add x.applicationId else .remove x.applicationId

theorem Switch.toggle_applicationId (x : Switch) (checked : Bool) :
    (x.toggle checked).applicationId = x.applicationId := by
  cases checked <;> rfl

theorem onCheckedChanged_acl {x : Switch} {checked : Bool}
    (h : checked ≠ p.serviceEnabled x.service) :
    (p.onCheckedChanged manager lists x checked).acl =
      ApplicationManager.toggle manager p.acl (x.toggle checked) := by
  unfold onCheckedChanged
  rw [if_pos h]
  cases checked <;> exact setAcl_acl _

variable (manager lists) in
theorem onCheckedChanged_services {x : Switch} {checked : Bool}
    (h : checked ≠ p.serviceEnabled x.service) :
    (p.onCheckedChanged manager lists x checked).serviceEnabled = p.serviceEnabled ∧
      (p.onCheckedChanged manager lists x checked).updating =
        Function.update p.updating x.service (p.updating x.service ++ [checked]) := by
  unfold onCheckedChanged
  rw [if_pos h]
  cases checked with
  | true =>
      obtain ⟨henabled, hupdating⟩ := setAcl_services lists p
        (addApplicationToAcl manager p.acl x.applicationId)
      refine ⟨henabled, ?_⟩
      simp [updateServiceEnabled, onApplicationAdded, hupdating]
  | false =>
      obtain ⟨henabled, hupdating⟩ := setAcl_services lists p
        (removeApplicationFromAcl manager p.acl x.applicationId)
      refine ⟨henabled, ?_⟩
      simp [updateServiceEnabled, onApplicationRemoved, hupdating]

theorem isOn_onCheckedChanged {x : Switch} {checked : Bool}
    (h : checked ≠ p.serviceEnabled x.service) :
    (p.onCheckedChanged manager lists x checked).isOn =
      Function.update p.isOn x.service checked := by
  obtain ⟨henabled, hupdating⟩ := onCheckedChanged_services manager lists h
  funext service
  unfold isOn
  rw [henabled, hupdating]
  by_cases hservice : service = x.service
  · simp [hservice]
  · simp [hservice]

theorem onCheckedChanged_of_eq {x : Switch} {checked : Bool}
    (h : checked = p.serviceEnabled x.service) :
    p.onCheckedChanged manager lists x checked = p :=
  if_neg (not_not.mpr h)

theorem hasEntry_remove {a b : String} (ha : IsClick manager a) (hb : IsClick manager b)
    (hapart : ¬ startsWith (unversioned manager b) (unversioned manager a)) (acl : List String) :
    HasEntry manager (removeApplicationFromAcl manager acl a) b ↔ HasEntry manager acl b := by
  rw [removeApplicationFromAcl_eq ha]
  refine exists_congr fun entry => ?_
  rw [List.mem_filter]
  refine ⟨fun h => ⟨h.1.1, h.2⟩, fun h => ⟨⟨h.1, ?_⟩, h.2⟩⟩
  rw [Bool.not_eq_true']
  by_contra hstarts
  rw [Bool.not_eq_false, startsWith_iff, ha.stripVersion] at hstarts
  apply hapart
  rw [startsWith_iff]
  exact prefix_of_prefix_token (count_stripVersion ha).1 hb h.2 hstarts

theorem not_hasEntry_remove {a b : String} (ha : IsClick manager a) (hb : IsClick manager b)
    (hstarts : startsWith (unversioned manager b) (unversioned manager a)) (acl : List String) :
    ¬ HasEntry manager (removeApplicationFromAcl manager acl a) b := by
  rintro ⟨entry, hentry, hown⟩
  rw [removeApplicationFromAcl_eq ha, List.mem_filter, Bool.not_eq_true', ha.stripVersion] at hentry
  have hown' := hown.startsWith hb
  rw [hb.stripVersion] at hown'
  have hstart := (startsWith_iff.mp hstarts).trans (startsWith_iff.mp hown')
  exact Bool.false_ne_true (hentry.2.symm.trans (startsWith_iff.mpr hstart))

theorem Stored.setAcl (h : p.Stored) (newAcl : List String) : (p.setAcl lists newAcl).Stored := by
  unfold ServiceSwitches.setAcl
  split_ifs
  · simp [Stored]
  · exact h

theorem Stored.step (h : p.Stored) {e : Event} (he : e.InOrder) :
    (p.step manager lists e).Stored := by
  cases e with
  | checkedChanged x checked =>
      by_cases hsame : checked = p.serviceEnabled x.service
      · rw [ServiceSwitches.step, onCheckedChanged_of_eq hsame]
        exact h
      · rw [ServiceSwitches.step, onCheckedChanged, if_pos hsame]
        cases checked
        · exact h.setAcl _
        · exact h.setAcl _
  | updated service i =>
      unfold ServiceSwitches.step
      dsimp only
      split
      · exact h
      · exact h
  | synced i =>
      obtain rfl : i = 0 := he
      unfold Stored at *
      simp only [ServiceSwitches.step]
      cases hsyncing : p.syncing with
      | nil => simpa [hsyncing] using h
      | cons acl syncing =>
          rw [hsyncing, List.getLast?_cons] at h
          cases hrest : syncing.getLast? <;> simpa [hrest] using h

theorem isOn_updated (service : String) :
    (p.step manager lists (.updated service 0)).isOn = p.isOn := by
  unfold step
  dsimp only
  cases hupdating : p.updating service with
  | nil => rfl
  | cons enabled updating =>
      funext service'
      unfold isOn
      by_cases hservice : service' = service
      · subst hservice
        rw [hupdating, List.getLast?_cons]
        cases hrest : updating.getLast? <;> simp [hrest]
      · simp [hservice]

theorem step_acl_of_not {e : Event} (h : ∀ x checked, e ≠ .checkedChanged x checked) :
    (p.step manager lists e).acl = p.acl := by
  unfold step
  cases e with
  | checkedChanged x checked => exact absurd rfl (h x checked)
  | updated service i =>
      dsimp only
      split <;> rfl
  | synced i =>
      dsimp only
      split <;> rfl

theorem isOn_synced (i : ℕ) : (p.step manager lists (.synced i)).isOn = p.isOn := by
  unfold step
  dsimp only
  split <;> rfl

/-! ### Whole runs -/

theorem run_stored (h : p.Stored) (es : List Event) (hes : ∀ e ∈ es, e.InOrder) :
    (p.run manager lists es).Stored := by
  induction es generalizing p with
  | nil => exact h
  | cons e es ih =>
      exact ih (h.step (hes e List.mem_cons_self)) fun e' he' => hes e' (List.mem_cons_of_mem e he')

variable (hclick : ∀ x ∈ switches, IsClick manager x.applicationId)
  (hdistinct : ∀ x ∈ switches, ∀ y ∈ switches,
    unversioned manager x.applicationId = unversioned manager y.applicationId →
      x.applicationId = y.applicationId)

include hclick in
/-- Turning the switch of one application does not change the access of another one, if the first
is not taken for the other when it is removed. -/
theorem hasEntry_toggle_other {x y : Switch} (hx : x ∈ switches) (hy : y ∈ switches)
    (hne : unversioned manager y.applicationId ≠ unversioned manager x.applicationId)
    (hapart : ¬ startsWith (unversioned manager y.applicationId)
      (unversioned manager x.applicationId)) (checked : Bool) (acl : List String) :
    HasEntry manager (ApplicationManager.toggle manager acl (x.toggle checked)) y.applicationId ↔
      HasEntry manager acl y.applicationId := by
  cases checked with
  | true => exact hasEntry_of_others hne (others_add (hclick x hx) acl)
  | false => exact hasEntry_remove (hclick x hx) (hclick y hy) hapart acl

include hclick hdistinct in
theorem Truthful.step (hmatched : Matched manager switches) (hp : Truthful manager switches p)
    {e : Event} (he : e.About switches) (horder : e.InOrder) :
    Truthful manager switches (p.step manager lists e) := by
  cases e with
  | updated service i =>
      obtain rfl : i = 0 := horder
      intro y hy
      rw [isOn_updated, step_acl_of_not (by simp)]
      exact hp y hy
  | synced i =>
      intro y hy
      rw [isOn_synced, step_acl_of_not (by simp)]
      exact hp y hy
  | checkedChanged x checked =>
      have hx : x ∈ switches := he
      unfold ServiceSwitches.step
      dsimp only
      by_cases hsame : checked = p.serviceEnabled x.service
      · rw [onCheckedChanged_of_eq hsame]
        exact hp
      intro y hy
      rw [isOn_onCheckedChanged hsame, onCheckedChanged_acl hsame]
      by_cases happ : x.applicationId = y.applicationId
      · -- the switch of the application itself
        rw [← (hmatched.service_iff x hx y hy).mpr happ, Function.update_self, ← happ]
        have hown := hasEntry_own (t := x.toggle checked)
          (by rw [x.toggle_applicationId]; exact hclick x hx) p.acl
        rw [x.toggle_applicationId] at hown
        rw [hown]
        cases checked <;> simp [Switch.toggle]
      · have hservice : y.service ≠ x.service := fun h =>
          happ ((hmatched.service_iff x hx y hy).mp h.symm)
        rw [Function.update_of_ne hservice, hp y hy]
        refine (hasEntry_toggle_other hclick hx hy ?_ ?_ checked p.acl).symm
        · exact fun h => happ (hdistinct y hy x hx h).symm
        · exact fun h => happ (hmatched.apart x hx y hy h)

include hclick hdistinct in
theorem run_truthful (hmatched : Matched manager switches) (hp : Truthful manager switches p)
    (es : List Event) (hes : ∀ e ∈ es, e.About switches ∧ e.InOrder) :
    Truthful manager switches (p.run manager lists es) := by
  induction es generalizing p with
  | nil => exact hp
  | cons e es ih =>
      obtain ⟨he, horder⟩ := hes e List.mem_cons_self
      have hstep : Truthful manager switches (p.step manager lists e) :=
        hp.step hclick hdistinct hmatched he horder
      exact ih hstep fun e' he' => hes e' (List.mem_cons_of_mem e he')

/-! ### The runs that break the promise -/

/-- No update is waiting. -/
def Settled (p : ServiceSwitches) : Prop := ∀ service, p.updating service = []

theorem Settled.isOn (h : p.Settled) : p.isOn = p.serviceEnabled := by
  funext service
  rw [ServiceSwitches.isOn, h service]
  rfl

/-- A switch is turned, and the update of its service takes effect. -/
def turn (manager : Accounts.Manager) (lists : ListComparison) (x : Switch) (checked : Bool)
    (p : ServiceSwitches) : ServiceSwitches :=
  p.run manager lists [.checkedChanged x checked, .updated x.service 0]

theorem turn_eq (h : p.Settled) (x : Switch) (checked : Bool) :
    (p.turn manager lists x checked).Settled ∧
      (p.turn manager lists x checked).serviceEnabled =
        Function.update p.serviceEnabled x.service checked ∧
      (p.turn manager lists x checked).acl = (p.onCheckedChanged manager lists x checked).acl := by
  have hturn : p.turn manager lists x checked =
      (p.onCheckedChanged manager lists x checked).step manager lists (.updated x.service 0) := rfl
  rw [hturn]
  refine and_assoc.mp ⟨?_, step_acl_of_not (by simp)⟩
  by_cases hsame : checked = p.serviceEnabled x.service
  · rw [onCheckedChanged_of_eq hsame, step, h x.service, hsame, Function.update_eq_self]
    exact ⟨h, rfl⟩
  · obtain ⟨henabled, hupdating⟩ := onCheckedChanged_services manager lists hsame
    rw [step, hupdating, Function.update_self, h x.service, henabled]
    refine ⟨fun service => ?_, rfl⟩
    dsimp only [List.nil_append, List.getElem?_cons_zero, List.eraseIdx_cons_zero]
    by_cases hservice : service = x.service
    · simp [hservice]
    · simp [hservice, h service]

theorem turn_acl (h : p.Settled) {x : Switch} {checked : Bool}
    (hne : p.serviceEnabled x.service ≠ checked) :
    (p.turn manager lists x checked).acl =
      ApplicationManager.toggle manager p.acl (x.toggle checked) :=
  (turn_eq h x checked).2.2.trans (onCheckedChanged_acl hne.symm)

theorem turn_self (h : p.Settled) (x : Switch) (checked : Bool) :
    (p.turn manager lists x checked).serviceEnabled x.service = checked := by
  rw [(turn_eq h x checked).2.1, Function.update_self]

theorem turn_of_ne (h : p.Settled) {x : Switch} (checked : Bool) {service : String}
    (hne : service ≠ x.service) :
    (p.turn manager lists x checked).serviceEnabled service = p.serviceEnabled service := by
  rw [(turn_eq h x checked).2.1, Function.update_of_ne hne]

/-- No update is waiting, and the switches of the page keep their promise in all runs. -/
structure StaysTruthful (manager : Accounts.Manager) (lists : ListComparison)
    (switches : List Switch) (p : ServiceSwitches) : Prop where
  settled : p.Settled
  run : ∀ es : List Event, (∀ e ∈ es, e.About switches ∧ e.InOrder) →
    Truthful manager switches (p.run manager lists es)

theorem StaysTruthful.turn (h : StaysTruthful manager lists switches p) {x : Switch}
    (hx : x ∈ switches) (checked : Bool) :
    StaysTruthful manager lists switches (p.turn manager lists x checked) where
  settled := (turn_eq h.settled x checked).1
  run es hes := h.run (.checkedChanged x checked :: .updated x.service 0 :: es)
    (List.forall_mem_cons.mpr ⟨⟨hx, trivial⟩, List.forall_mem_cons.mpr ⟨⟨trivial, rfl⟩, hes⟩⟩)

theorem StaysTruthful.truthful (h : StaysTruthful manager lists switches p) {x : Switch}
    (hx : x ∈ switches) : p.serviceEnabled x.service ↔ HasEntry manager p.acl x.applicationId := by
  rw [← h.settled.isOn]
  exact h.run [] (List.forall_mem_nil _) x hx

variable {x y : Switch}

include hclick hdistinct in
/-- Two applications share a service: the second switch goes on with the first one, and nothing is
added for its application. -/
theorem same_application (h : StaysTruthful manager lists switches p) (hx : x ∈ switches)
    (hy : y ∈ switches) (hservice : x.service = y.service) : x.applicationId = y.applicationId := by
  by_contra happ
  have hoff := h.turn hx false
  have hon := hoff.turn hx true
  have hself : (p.turn manager lists x false).serviceEnabled x.service = false :=
    turn_self h.settled x false
  have hhas := (hon.truthful hy).mp (by rw [← hservice]; exact turn_self hoff.settled x true)
  rw [turn_acl hoff.settled (by rw [hself]; decide)] at hhas
  have hne : unversioned manager y.applicationId ≠ unversioned manager x.applicationId :=
    fun heq => happ (hdistinct y hy x hx heq).symm
  have hbefore := (hasEntry_of_others hne (others_add (hclick x hx) _)).mp hhas
  have hshown := (hoff.truthful hy).mpr hbefore
  rw [← hservice, hself] at hshown
  exact Bool.false_ne_true hshown

/-- An application uses two services: turning off one of its switches leaves the other one on. -/
theorem same_service (h : StaysTruthful manager lists switches p) (hx : x ∈ switches)
    (hy : y ∈ switches) (happ : x.applicationId = y.applicationId) : x.service = y.service := by
  by_contra hservice
  have hon := h.turn hx true
  have hoff := hon.turn hy false
  have hhas := (hoff.truthful hx).mp (by
    rw [turn_of_ne hon.settled _ hservice]
    exact turn_self h.settled x true)
  rw [happ] at hhas
  have hshown := (hoff.truthful hy).mpr hhas
  rw [turn_self hon.settled] at hshown
  exact Bool.false_ne_true hshown

include hclick hdistinct in
/-- Turning off the switch of the one application takes away the access of the other one. -/
theorem same_of_startsWith (h : StaysTruthful manager lists switches p) (hx : x ∈ switches)
    (hy : y ∈ switches)
    (hstarts : startsWith (unversioned manager y.applicationId)
      (unversioned manager x.applicationId)) : x.applicationId = y.applicationId := by
  by_contra happ
  have hservice : y.service ≠ x.service := fun heq =>
    happ (same_application hclick hdistinct h hx hy heq.symm)
  have hother := h.turn hy true
  have hon := hother.turn hx true
  have hoff := hon.turn hx false
  have hself : ((p.turn manager lists y true).turn manager lists x true).serviceEnabled x.service =
      true := turn_self hother.settled x true
  have hhas := (hoff.truthful hy).mp (by
    rw [turn_of_ne hon.settled _ hservice, turn_of_ne hother.settled _ hservice]
    exact turn_self h.settled y true)
  rw [turn_acl hon.settled (by rw [hself]; decide)] at hhas
  exact not_hasEntry_remove (hclick x hx) (hclick y hy) hstarts _ hhas

end

/-- **Truthful switches**: from a state in which a switch is on exactly if its application has
access, this stays so in every run, and what is shown is what gets stored, if and only if services
and applications belong together one to one and no application is taken for another one.  The
updates of a service, and the lists, take effect in the order in which they were asked for. -/
theorem switches_truthful_iff (manager : Accounts.Manager) (lists : ListComparison)
    (switches : List Switch) (hclick : ∀ x ∈ switches, IsClick manager x.applicationId)
    (hdistinct : ∀ x ∈ switches, ∀ y ∈ switches,
      unversioned manager x.applicationId = unversioned manager y.applicationId →
        x.applicationId = y.applicationId)
    {p : ServiceSwitches} (hsettled : p.Settled) (hp : Truthful manager switches p)
    (hstored : p.Stored) :
    (∀ es : List Event, (∀ e ∈ es, e.About switches ∧ e.InOrder) →
      Truthful manager switches (p.run manager lists es) ∧ (p.run manager lists es).Stored) ↔
      Matched manager switches := by
  constructor
  · intro hall
    have h : StaysTruthful manager lists switches p := ⟨hsettled, fun es hes => (hall es hes).1⟩
    refine ⟨fun x hx y hy => ⟨?_, ?_⟩, fun x hx y hy => ?_⟩
    · exact same_application hclick hdistinct h hx hy
    · exact same_service h hx hy
    · exact same_of_startsWith hclick hdistinct h hx hy
  · intro hmatched es hes
    exact ⟨run_truthful hclick hdistinct hmatched hp es hes,
      run_stored hstored es fun e he => (hes e he).2⟩

/-- Two applications, each with a service of its own; the first one has access. -/
def twoSwitches : List Switch :=
  [⟨"example-mail", "com.ubuntu.test_One"⟩, ⟨"example-chat", "com.ubuntu.test_Two"⟩]

def oneIsOn : ServiceSwitches where
  serviceEnabled service := service = "example-mail"
  acl := ["unconfined", "com.ubuntu.test_One_0.1"]
  stored := ["unconfined", "com.ubuntu.test_One_0.1"]

/-- A comparison that takes any two list objects for different. -/
def ListComparison.identity : ListComparison := ⟨fun _ _ => true, fun _ => rfl⟩

theorem switches_truthful_iff_two :
    (∀ es : List Event, (∀ e ∈ es, e.About twoSwitches ∧ e.InOrder) →
      Truthful clickManager twoSwitches (oneIsOn.run clickManager .identity es) ∧
        (oneIsOn.run clickManager .identity es).Stored) ↔ Matched clickManager twoSwitches :=
  switches_truthful_iff clickManager .identity twoSwitches (by decide) (by decide) (fun _ => rfl)
    (by decide) rfl

/-- With both applications under one service, the second switch goes on without access. -/
example :
    let one : Switch := ⟨"example-mail", "com.ubuntu.test_One"⟩
    let two : Switch := ⟨"example-mail", "com.ubuntu.test_Two"⟩
    let p : ServiceSwitches := { serviceEnabled := fun _ => false, acl := [], stored := [] }
    Truthful clickManager [one, two] p ∧
      ¬ Truthful clickManager [one, two]
        (p.run clickManager .identity [.checkedChanged one true]) := by
  decide

end ServiceSwitches

end OnlineAccounts
