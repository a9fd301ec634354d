import OnlineAccounts.LibaccountsService
import OnlineAccounts.Transition

/-! # Answers to `store`

`LibaccountsService::store` never returns its result: the reply is sent when the sync of the
account object ends (`onAccountSynced`, `onAccountError`), and the messages that wait for it are
kept in `m_pendingWrites`.  A `Stores` runs any number of calls at a time, with their signals in
any order, while other programs change the database.

When all syncs have ended, a call has one reply, which is its own outcome, unless it asked for an
account that does not exist: such a call is never answered (`store_answered_iff`). -/

namespace OnlineAccounts

namespace Accounts.Library

/-- The id of an account object after it has been stored. -/
def syncedId (lib : Library) (db : Database) (a : Account) : ℕ :=
  if a.id = 0 ∧ a.removed = false then lib.newId db else a.id

end Accounts.Library

namespace LibaccountsService

open Accounts Transition

abbrev ObjectId := ℕ

/-- A call, and the database when it arrives. -/
structure Call where
  profile : String
  changes : AccountChanges
  database : Database

/-- The replies: two errors, and the id of the account. -/
inductive Reply where
  | accessDenied (message : String)
  | internalError (message : String)
  | accountId (id : ℕ)
deriving DecidableEq

/-- What the log records. -/
inductive Emission where
  | called (message : ℕ) (call : Call)
  /-- The sync of an account object was started for a call. -/
  | started (message : ℕ) (object : ObjectId)
  /-- The sync of an account object has ended, with what is to be replied. -/
  | signalled (object : ObjectId) (reply : Reply)
  | replied (message : ℕ) (reply : Reply)

structure Stores where
  database : Database
  objects : ObjectId → Account := fun _ => { id := 0, provider := "" }
  /-- How many account objects have been created. -/
  nextObject : ℕ := 0
  nextMessage : ℕ := 0
  /-- `m_pendingWrites`: the messages by their account objects. -/
  pendingWrites : List (ObjectId × ℕ) := []
  /-- The account objects whose sync has not ended. -/
  syncing : List ObjectId := []
  log : List Emission := []

inductive Event where
  | store (profile : String) (changes : AccountChanges)
  | synced (object : ObjectId)
  | error (object : ObjectId) (message : String)
  /-- Another program changes the database. -/
  | changed (database : Database)

namespace Stores

def emit (e : Emission) (s : Stores) : Stores := { s with log := e :: s.log }

/-- A call of `store`, with `writeChanges`. -/
def store (manager : Manager) (profile : String) (changes : AccountChanges) (s : Stores) : Stores :=
  let message := s.nextMessage
  let called := { s with nextMessage := message + 1 }.emit
    (.called message ⟨profile, changes, s.database⟩)
  match LibaccountsService.store manager s.database profile changes with
  | .accessDenied => called.emit (.replied message (.accessDenied "Profile/provider mismatch"))
  | .notLoaded => called
  | .syncing account =>
      let object := manager.library.object s.nextObject
      { called with
        objects := Function.update s.objects object account
        nextObject := s.nextObject + 1
        pendingWrites := (object, message) :: s.pendingWrites.filter (·.1 ≠ object)
        syncing := s.syncing ++ [object] }.emit (.started message object)

/-- The slots `onAccountSynced` and `onAccountError`, for the sender `object`. -/
def onSignal (object : ObjectId) (reply : Reply) (s : Stores) : Stores :=
  match s.pendingWrites.find? (·.1 = object) with
  | none => s
  | some (_, message) =>
      { s.emit (.replied message reply) with
        pendingWrites := s.pendingWrites.filter (·.1 ≠ object) }

/-- The sync of an object ends. -/
def signalled (object : ObjectId) (reply : Reply) (s : Stores) : Stores :=
  { s with syncing := s.syncing.filter (· ≠ object) }.emit (.signalled object reply)

/-- One event.  A sync that does not run cannot end. -/
def step (manager : Manager) (s : Stores) : Event → Stores
  | .store profile changes => s.store manager profile changes
  | .synced object =>
      if object ∈ s.syncing then
        let account := s.objects object
        let id := manager.library.syncedId s.database account
        let s := { s with
          database := manager.library.sync s.database account
          objects := Function.update s.objects object { account with id := id } }
        (s.signalled object (.accountId id)).onSignal object (.accountId id)
      else s
  | .error object message =>
      if object ∈ s.syncing then
        (s.signalled object (.internalError message)).onSignal object (.internalError message)
      else s
  | .changed database => { s with database := database }

/-- The service at its start; no event faults. -/
def machine (manager : Manager) (database : Database) : Machine Stores Event Empty where
  start := { database := database }
  step s e := .ok (s.step manager e)

/-- The replies to a call, the newest first. -/
def repliesTo (m : ℕ) (s : Stores) : List Reply :=
  s.log.filterMap fun
    | .replied message reply => if message = m then some reply else none
    | _ => none

/-- The reply is the outcome of the call: it was denied, or this is how its own sync ended. -/
def Outcome (s : Stores) (m : ℕ) (call : Call) (reply : Reply) : Prop :=
  if stripVersion call.profile ≠ call.changes.provider then
    reply = .accessDenied "Profile/provider mismatch"
  else ∃ object, .started m object ∈ s.log ∧ .signalled object reply ∈ s.log

/-- The call has one reply, which is its own outcome. -/
def AnsweredOnce (s : Stores) (m : ℕ) (call : Call) : Prop :=
  ∃ reply, s.repliesTo m = [reply] ∧ s.Outcome m call reply

end Stores

/-- The call is denied, or it creates an account, or its account exists. -/
def Call.Answerable (call : Call) : Prop :=
  stripVersion call.profile ≠ call.changes.provider ∨ call.changes.created = true ∨
    (call.database.accounts call.changes.accountId).isSome = true

/-- How the call ends at once. -/
def Call.store (manager : Manager) (call : Call) : Outcome :=
  LibaccountsService.store manager call.database call.profile call.changes

/-- Only a call that is not answerable finds no account to store. -/
theorem Call.store_eq_notLoaded_iff (manager : Manager) (call : Call) :
    call.store manager = .notLoaded ↔ ¬ call.Answerable := by
  unfold Call.store LibaccountsService.store Answerable writeChanges
  by_cases hp : stripVersion call.profile = call.changes.provider
  · cases hc : call.changes.created with
    | true => simp [hp]
    | false =>
        cases ha : call.database.accounts call.changes.accountId <;>
          simp [hp, manager.library.account_eq, ha]
  · simp [hp]

theorem Call.store_eq_accessDenied_iff (manager : Manager) (call : Call) :
    call.store manager = .accessDenied ↔ stripVersion call.profile ≠ call.changes.provider := by
  unfold Call.store LibaccountsService.store
  split_ifs with hp
  · exact iff_of_true rfl hp
  · refine iff_of_false ?_ hp
    cases writeChanges manager call.database call.changes <;> simp

namespace Stores

variable {manager : Manager}

/-! ### The messages that wait for a reply -/

/-- What has become of a call. -/
def Answer (manager : Manager) (s : Stores) (m : ℕ) (call : Call) : Prop :=
  match call.store manager with
  | .accessDenied => s.repliesTo m = [.accessDenied "Profile/provider mismatch"]
  | .notLoaded => s.repliesTo m = []
  | .syncing _ => ∃ object, .started m object ∈ s.log ∧
      if object ∈ s.syncing then s.repliesTo m = []
      else ∃ reply, .signalled object reply ∈ s.log ∧ s.repliesTo m = [reply]

/-- The calls, their account objects, and the messages that wait. -/
structure Inv (manager : Manager) (s : Stores) : Prop where
  called : ∀ m call, .called m call ∈ s.log → m < s.nextMessage
  calledOnce : ∀ m call call', .called m call ∈ s.log → .called m call' ∈ s.log → call = call'
  started : ∀ m object, .started m object ∈ s.log →
    m < s.nextMessage ∧ ∃ n < s.nextObject, object = manager.library.object n
  unique : ∀ m object m' object', .started m object ∈ s.log → .started m' object' ∈ s.log →
    (m = m' ↔ object = object')
  replied : ∀ m reply, .replied m reply ∈ s.log → m < s.nextMessage
  starts : ∀ m call object, .called m call ∈ s.log → .started m object ∈ s.log →
    ∃ account, call.store manager = .syncing account
  syncing : ∀ object ∈ s.syncing, ∃ m, .started m object ∈ s.log
  pending : ∀ object m, (object, m) ∈ s.pendingWrites ↔
    object ∈ s.syncing ∧ .started m object ∈ s.log
  answer : ∀ m call, .called m call ∈ s.log → s.Answer manager m call

theorem inv_start (manager : Manager) (database : Database) :
    Inv manager { database := database } where
  called _ _ hmem := absurd hmem List.not_mem_nil
  calledOnce _ _ _ hmem := absurd hmem List.not_mem_nil
  started _ _ hmem := absurd hmem List.not_mem_nil
  unique _ _ _ _ hmem := absurd hmem List.not_mem_nil
  replied _ _ hmem := absurd hmem List.not_mem_nil
  starts _ _ _ hmem := absurd hmem List.not_mem_nil
  syncing _ hmem := absurd hmem List.not_mem_nil
  pending object m := by simp
  answer _ _ hmem := absurd hmem List.not_mem_nil

theorem Inv.ne_next {s : Stores} (h : s.Inv manager) {m : ℕ} {object : ObjectId}
    (hstarted : .started m object ∈ s.log) : object ≠ manager.library.object s.nextObject := by
  obtain ⟨-, n, hn, rfl⟩ := h.started m object hstarted
  exact fun heq => hn.ne (manager.library.object_injective heq)

theorem repliesTo_append {s s' : Stores} {m : ℕ} (es : List Emission) (h : s'.log = es ++ s.log)
    (hes : ∀ reply, .replied m reply ∉ es) : s'.repliesTo m = s.repliesTo m := by
  have hnone : es.filterMap (fun
      | .replied message reply => if message = m then some reply else none
      | _ => none) = [] := by
    rw [List.filterMap_eq_nil_iff]
    intro e he
    cases e with
    | replied message reply =>
        dsimp only
        rw [if_neg]
        rintro rfl
        exact hes reply he
    | _ => rfl
  unfold repliesTo
  rw [h, List.filterMap_append, hnone, List.nil_append]

theorem Inv.repliesTo_next {s : Stores} (h : s.Inv manager) : s.repliesTo s.nextMessage = [] := by
  unfold repliesTo
  rw [List.filterMap_eq_nil_iff]
  intro e he
  cases e with
  | replied message reply =>
      dsimp only
      rw [if_neg]
      rintro rfl
      exact (h.replied _ reply he).false
  | _ => rfl

theorem Answer.congr {s s' : Stores} {m : ℕ} {call : Call} (h : s.Answer manager m call)
    (hlog : ∀ e ∈ s.log, e ∈ s'.log) (hreplies : s'.repliesTo m = s.repliesTo m)
    (hsyncing : ∀ object, .started m object ∈ s.log → (object ∈ s'.syncing ↔ object ∈ s.syncing)) :
    s'.Answer manager m call := by
  unfold Answer at h ⊢
  cases hstore : call.store manager with
  | accessDenied | notLoaded =>
      rw [hstore] at h
      exact hreplies.trans h
  | syncing account =>
      rw [hstore] at h
      obtain ⟨object, hstarted, hanswer⟩ := h
      refine ⟨object, hlog _ hstarted, ?_⟩
      rw [hreplies]
      simp only [hsyncing object hstarted]
      split_ifs at hanswer ⊢ with hobject
      · exact hanswer
      · obtain ⟨reply, hsignalled, hreply⟩ := hanswer
        exact ⟨reply, hlog _ hsignalled, hreply⟩

/-! ### A call -/

/-- What a call may add: its own reply, or its own account object. -/
structure Extends (manager : Manager) (call : Call) (es : List Emission) (s s' : Stores) : Prop where
  log : s'.log = es ++ .called s.nextMessage call :: s.log
  emitted : ∀ e ∈ es, (∃ reply, e = .replied s.nextMessage reply) ∨
    e = .started s.nextMessage (manager.library.object s.nextObject) ∧
      s.nextObject < s'.nextObject ∧ ∃ account, call.store manager = .syncing account
  nextMessage : s'.nextMessage = s.nextMessage + 1
  nextObject : s.nextObject ≤ s'.nextObject
  syncing : ∀ object, object ∈ s'.syncing ↔
    object ∈ s.syncing ∨ .started s.nextMessage object ∈ es
  pending : ∀ object m, (object, m) ∈ s'.pendingWrites ↔
    (object, m) ∈ s.pendingWrites ∨ .started m object ∈ es
  answer : s'.Answer manager s.nextMessage call

theorem Extends.called {call : Call} {es : List Emission} {s s' : Stores}
    (h : Extends manager call es s s') {m : ℕ} {call' : Call} (hmem : .called m call' ∈ s'.log) :
    m = s.nextMessage ∧ call' = call ∨ .called m call' ∈ s.log := by
  rw [h.log] at hmem
  rcases List.mem_append.mp hmem with hnew | hmem
  · rcases h.emitted _ hnew with ⟨reply, he⟩ | ⟨he, -⟩ <;> cases he
  · rcases List.mem_cons.mp hmem with he | hold
    · cases he
      exact Or.inl ⟨rfl, rfl⟩
    · exact Or.inr hold

theorem Extends.started {call : Call} {es : List Emission} {s s' : Stores}
    (h : Extends manager call es s s') {m : ℕ} {object : ObjectId}
    (hmem : .started m object ∈ s'.log) :
    m = s.nextMessage ∧ object = manager.library.object s.nextObject ∧
      s.nextObject < s'.nextObject ∧ (∃ account, call.store manager = .syncing account) ∨
        .started m object ∈ s.log := by
  rw [h.log] at hmem
  rcases List.mem_append.mp hmem with hnew | hmem
  · rcases h.emitted _ hnew with ⟨reply, he⟩ | ⟨he, hlt, hstore⟩
    · cases he
    · cases he
      exact Or.inl ⟨rfl, rfl, hlt, hstore⟩
  · rcases List.mem_cons.mp hmem with he | hold
    · cases he
    · exact Or.inr hold

theorem Extends.mem_log {call : Call} {es : List Emission} {s s' : Stores}
    (h : Extends manager call es s s') {e : Emission} (he : e ∈ s.log) : e ∈ s'.log := by
  rw [h.log]
  exact List.mem_append_right es (List.mem_cons_of_mem _ he)

theorem Extends.eq_of_started {call : Call} {es : List Emission} {s s' : Stores}
    (h : Extends manager call es s s') {m : ℕ} {object : ObjectId} (hmem : .started m object ∈ es) :
    m = s.nextMessage ∧ object = manager.library.object s.nextObject := by
  rcases h.emitted _ hmem with ⟨reply, he⟩ | ⟨he, -⟩
  · cases he
  · cases he
    exact ⟨rfl, rfl⟩

theorem Extends.replied {call : Call} {es : List Emission} {s s' : Stores}
    (h : Extends manager call es s s') {m : ℕ} {reply : Reply} (hmem : .replied m reply ∈ s'.log) :
    m = s.nextMessage ∨ .replied m reply ∈ s.log := by
  rw [h.log] at hmem
  rcases List.mem_append.mp hmem with hnew | hmem
  · rcases h.emitted _ hnew with ⟨reply', he⟩ | ⟨he, -⟩
    · cases he
      exact Or.inl rfl
    · cases he
  · exact Or.inr ((List.mem_cons.mp hmem).resolve_left (by simp))

theorem Extends.repliesTo {call : Call} {es : List Emission} {s s' : Stores}
    (h : Extends manager call es s s') {m : ℕ} (hne : m ≠ s.nextMessage) :
    s'.repliesTo m = s.repliesTo m := by
  apply repliesTo_append (es ++ [.called s.nextMessage call])
  · rw [h.log, List.append_assoc]
    rfl
  · intro reply hreply
    rcases List.mem_append.mp hreply with hreply | hreply
    · rcases h.emitted _ hreply with ⟨reply', he⟩ | ⟨he, -⟩
      · cases he
        exact hne rfl
      · cases he
    · simp at hreply

/-- The messages that wait are those of the accounts that are being stored, since the object of the
call is a new one. -/
theorem Extends.mem_pendingWrites {call : Call} {es : List Emission} {s s' : Stores}
    (h : Extends manager call es s s') (hi : s.Inv manager) (object : ObjectId) (m : ℕ) :
    (object, m) ∈ s'.pendingWrites ↔ object ∈ s'.syncing ∧ .started m object ∈ s'.log := by
  rw [h.pending, h.syncing, hi.pending, h.log, List.mem_append, List.mem_cons]
  constructor
  · rintro (⟨hobject, hstarted⟩ | hstarted)
    · exact ⟨Or.inl hobject, Or.inr (Or.inr hstarted)⟩
    · obtain ⟨rfl, -⟩ := h.eq_of_started hstarted
      exact ⟨Or.inr hstarted, Or.inl hstarted⟩
  · rintro ⟨hobject | hobject, hstarted | hstarted | hstarted⟩
    · exact Or.inr hstarted
    · cases hstarted
    · exact Or.inl ⟨hobject, hstarted⟩
    · exact Or.inr hstarted
    · cases hstarted
    · obtain ⟨-, rfl⟩ := h.eq_of_started hobject
      exact absurd rfl (hi.ne_next hstarted)

theorem Inv.extend {call : Call} {es : List Emission} {s s' : Stores} (hi : s.Inv manager)
    (h : Extends manager call es s s') : s'.Inv manager where
  called m call' hmem := by
    rw [h.nextMessage]
    rcases h.called hmem with ⟨rfl, -⟩ | hold
    · exact Nat.lt_succ_self _
    · exact Nat.lt_succ_of_lt (hi.called m call' hold)
  calledOnce m call' call'' hmem hmem' := by
    rcases h.called hmem with ⟨rfl, rfl⟩ | hold <;> rcases h.called hmem' with ⟨hm, rfl⟩ | hold'
    · rfl
    · exact absurd (hi.called _ _ hold') (lt_irrefl _)
    · exact absurd hm (hi.called _ _ hold).ne
    · exact hi.calledOnce m call' call'' hold hold'
  started m object hmem := by
    rw [h.nextMessage]
    rcases h.started hmem with ⟨rfl, rfl, hlt, -⟩ | hold
    · exact ⟨Nat.lt_succ_self _, s.nextObject, hlt, rfl⟩
    · obtain ⟨hm, n, hn, hobject⟩ := hi.started m object hold
      exact ⟨Nat.lt_succ_of_lt hm, n, hn.trans_le h.nextObject, hobject⟩
  unique m object m' object' hmem hmem' := by
    rcases h.started hmem with ⟨rfl, rfl, -⟩ | hold <;>
      rcases h.started hmem' with ⟨rfl, rfl, -⟩ | hold'
    · exact iff_of_true rfl rfl
    · exact iff_of_false (hi.started _ _ hold').1.ne' (hi.ne_next hold').symm
    · exact iff_of_false (hi.started _ _ hold).1.ne (hi.ne_next hold)
    · exact hi.unique m object m' object' hold hold'
  replied m reply hmem := by
    rw [h.nextMessage]
    rcases h.replied hmem with rfl | hold
    · exact Nat.lt_succ_self _
    · exact Nat.lt_succ_of_lt (hi.replied m reply hold)
  starts m call' object hmem hmem' := by
    rcases h.called hmem with ⟨rfl, rfl⟩ | hold <;>
      rcases h.started hmem' with ⟨hm, -, -, hstore⟩ | hold'
    · exact hstore
    · exact absurd (hi.started _ _ hold').1 (lt_irrefl _)
    · exact absurd hm (hi.called _ _ hold).ne
    · exact hi.starts m call' object hold hold'
  syncing object hmem := by
    rcases (h.syncing object).mp hmem with hold | hnew
    · exact (hi.syncing object hold).imp fun m => h.mem_log
    · refine ⟨s.nextMessage, ?_⟩
      rw [h.log]
      exact List.mem_append_left _ hnew
  pending := h.mem_pendingWrites hi
  answer m call' hmem := by
    rcases h.called hmem with ⟨rfl, rfl⟩ | hold
    · exact h.answer
    · apply (hi.answer m call' hold).congr
      · exact fun e he => h.mem_log he
      · exact h.repliesTo (hi.called m call' hold).ne
      · intro object hstarted
        rw [h.syncing]
        apply or_iff_left
        intro hstarted'
        obtain ⟨-, rfl⟩ := h.eq_of_started hstarted'
        exact absurd rfl (hi.ne_next hstarted)

section

variable {s : Stores} {profile : String} {changes : AccountChanges}

theorem Inv.extends_of_accessDenied (hi : s.Inv manager)
    (h : LibaccountsService.store manager s.database profile changes = .accessDenied) :
    Extends manager ⟨profile, changes, s.database⟩
      [.replied s.nextMessage (.accessDenied "Profile/provider mismatch")] s
      (s.store manager profile changes) := by
  have hreplies : s.repliesTo s.nextMessage = [] := hi.repliesTo_next
  have hstore : (Call.mk profile changes s.database).store manager = .accessDenied := h
  unfold Stores.store
  rw [h]
  simp only [emit]
  refine ⟨rfl, ?_, rfl, le_rfl, ?_, ?_, ?_⟩
  · simp
  · simp
  · simp
  · unfold Answer
    rw [hstore]
    unfold repliesTo at hreplies ⊢
    simp [hreplies]

theorem Inv.extends_of_notLoaded (hi : s.Inv manager)
    (h : LibaccountsService.store manager s.database profile changes = .notLoaded) :
    Extends manager ⟨profile, changes, s.database⟩ [] s (s.store manager profile changes) := by
  have hreplies : s.repliesTo s.nextMessage = [] := hi.repliesTo_next
  have hstore : (Call.mk profile changes s.database).store manager = .notLoaded := h
  unfold Stores.store
  rw [h]
  simp only [emit]
  refine ⟨rfl, ?_, rfl, le_rfl, ?_, ?_, ?_⟩
  · simp
  · simp
  · simp
  · unfold Answer
    rw [hstore]
    unfold repliesTo at hreplies ⊢
    simp [hreplies]

theorem Inv.extends_of_syncing (hi : s.Inv manager) {account : Account}
    (h : LibaccountsService.store manager s.database profile changes = .syncing account) :
    Extends manager ⟨profile, changes, s.database⟩
      [.started s.nextMessage (manager.library.object s.nextObject)] s
      (s.store manager profile changes) := by
  have hreplies : s.repliesTo s.nextMessage = [] := hi.repliesTo_next
  have hstore : (Call.mk profile changes s.database).store manager = .syncing account := h
  have hfresh : s.pendingWrites.filter (·.1 ≠ manager.library.object s.nextObject) =
      s.pendingWrites := by
    rw [List.filter_eq_self]
    rintro ⟨object, m⟩ hmem
    exact decide_eq_true (hi.ne_next ((hi.pending object m).mp hmem).2)
  unfold Stores.store
  rw [h]
  simp only [emit]
  rw [hfresh]
  refine ⟨rfl, ?_, rfl, Nat.le_succ _, ?_, ?_, ?_⟩
  · intro e he
    obtain rfl := List.mem_singleton.mp he
    exact Or.inr ⟨rfl, Nat.lt_succ_self _, account, hstore⟩
  · simp
  · intro object m
    simp [or_comm, and_comm]
  · unfold Answer
    rw [hstore]
    refine ⟨_, List.mem_cons_self, ?_⟩
    rw [if_pos (List.mem_append_right _ List.mem_cons_self)]
    unfold repliesTo at hreplies ⊢
    simp [hreplies]

theorem Inv.store (hi : s.Inv manager) (profile : String) (changes : AccountChanges) :
    (s.store manager profile changes).Inv manager := by
  cases h : LibaccountsService.store manager s.database profile changes with
  | accessDenied => exact hi.extend (hi.extends_of_accessDenied h)
  | notLoaded => exact hi.extend (hi.extends_of_notLoaded h)
  | syncing account => exact hi.extend (hi.extends_of_syncing h)

end

/-! ### The end of a sync -/

/-- The message that waits for an account object. -/
theorem Inv.find_pending {s : Stores} (hi : s.Inv manager) {m : ℕ} {object : ObjectId}
    (h : object ∈ s.syncing) (hstarted : .started m object ∈ s.log) :
    s.pendingWrites.find? (·.1 = object) = some (object, m) := by
  have hpending : (object, m) ∈ s.pendingWrites := (hi.pending object m).mpr ⟨h, hstarted⟩
  cases hfind : s.pendingWrites.find? (·.1 = object) with
  | none =>
      rw [List.find?_eq_none] at hfind
      exact absurd (decide_eq_true rfl) (hfind _ hpending)
  | some entry =>
      obtain ⟨object', m'⟩ := entry
      have hobject : object' = object := by simpa using List.find?_some hfind
      subst hobject
      have hstarted' := ((hi.pending object' m').mp (List.mem_of_find?_eq_some hfind)).2
      rw [(hi.unique m object' m' object' hstarted hstarted').mpr rfl]

/-- What the end of a sync changes. -/
structure Ends (m : ℕ) (object : ObjectId) (reply : Reply) (s s' : Stores) : Prop where
  log : s'.log = .replied m reply :: .signalled object reply :: s.log
  nextMessage : s'.nextMessage = s.nextMessage
  nextObject : s'.nextObject = s.nextObject
  syncing : ∀ object', object' ∈ s'.syncing ↔ object' ∈ s.syncing ∧ object' ≠ object
  pending : ∀ object' m', (object', m') ∈ s'.pendingWrites ↔
    (object', m') ∈ s.pendingWrites ∧ object' ≠ object

theorem Inv.ends {s : Stores} (hi : s.Inv manager) {m : ℕ} {object : ObjectId}
    (h : object ∈ s.syncing) (hstarted : .started m object ∈ s.log) (reply : Reply)
    (database : Database) (objects : ObjectId → Account) :
    Ends m object reply s ((({ s with database := database, objects := objects } : Stores).signalled
      object reply).onSignal object reply) := by
  unfold onSignal Stores.signalled
  simp only [emit]
  rw [hi.find_pending h hstarted]
  refine ⟨rfl, rfl, rfl, ?_, ?_⟩
  · intro object'
    simp
  · intro object' m'
    simp

theorem Ends.called {m : ℕ} {object : ObjectId} {reply : Reply} {s s' : Stores}
    (h : Ends m object reply s s') {m' : ℕ} {call : Call} :
    .called m' call ∈ s'.log ↔ .called m' call ∈ s.log := by
  simp [h.log]

theorem Ends.started {m : ℕ} {object : ObjectId} {reply : Reply} {s s' : Stores}
    (h : Ends m object reply s s') {m' : ℕ} {object' : ObjectId} :
    .started m' object' ∈ s'.log ↔ .started m' object' ∈ s.log := by
  simp [h.log]

theorem Ends.mem_log {m : ℕ} {object : ObjectId} {reply : Reply} {s s' : Stores}
    (h : Ends m object reply s s') {e : Emission} (he : e ∈ s.log) : e ∈ s'.log := by
  rw [h.log]
  exact List.mem_cons_of_mem _ (List.mem_cons_of_mem _ he)

theorem Ends.answer {m : ℕ} {object : ObjectId} {reply : Reply} {s s' : Stores}
    (h : Ends m object reply s s') (hi : s.Inv manager) (hsyncing : object ∈ s.syncing)
    (hstarted : .started m object ∈ s.log) {call : Call} (hcalled : .called m call ∈ s.log) :
    s'.Answer manager m call := by
  have hanswer := hi.answer m call hcalled
  obtain ⟨account, hstore⟩ := hi.starts m call object hcalled hstarted
  unfold Answer at hanswer ⊢
  rw [hstore] at hanswer ⊢
  obtain ⟨object', hstarted', hreplies⟩ := hanswer
  obtain rfl := (hi.unique m object m object' hstarted hstarted').mp rfl
  rw [if_pos hsyncing] at hreplies
  refine ⟨object, h.started.mpr hstarted, ?_⟩
  rw [if_neg fun hmem => ((h.syncing object).mp hmem).2 rfl]
  refine ⟨reply, ?_, ?_⟩
  · rw [h.log]
    exact List.mem_cons_of_mem _ List.mem_cons_self
  · unfold repliesTo at hreplies ⊢
    simp [h.log, hreplies]

theorem Ends.answer_of_ne {m : ℕ} {object : ObjectId} {reply : Reply} {s s' : Stores}
    (h : Ends m object reply s s') (hi : s.Inv manager) (hstarted : .started m object ∈ s.log)
    {m' : ℕ} {call : Call} (hne : m' ≠ m) (hcalled : .called m' call ∈ s.log) :
    s'.Answer manager m' call := by
  apply (hi.answer m' call hcalled).congr
  · exact fun e he => h.mem_log he
  · apply repliesTo_append [.replied m reply, .signalled object reply] h.log
    intro reply' hmem
    simp only [List.mem_cons, Emission.replied.injEq, reduceCtorEq, List.not_mem_nil,
      or_false] at hmem
    exact hne hmem.1
  · intro object' hstarted'
    rw [h.syncing]
    apply and_iff_left
    rintro rfl
    exact hne ((hi.unique m' object' m object' hstarted' hstarted).mpr rfl)

theorem Inv.signalled {s s' : Stores} (hi : s.Inv manager) {m : ℕ} {object : ObjectId}
    {reply : Reply} (hsyncing : object ∈ s.syncing) (hstarted : .started m object ∈ s.log)
    (h : Ends m object reply s s') : s'.Inv manager where
  called m' call hmem := by
    rw [h.nextMessage]
    exact hi.called m' call (h.called.mp hmem)
  calledOnce m' call call' hmem hmem' :=
    hi.calledOnce m' call call' (h.called.mp hmem) (h.called.mp hmem')
  started m' object' hmem := by
    rw [h.nextMessage, h.nextObject]
    exact hi.started m' object' (h.started.mp hmem)
  unique m' object' m'' object'' hmem hmem' :=
    hi.unique m' object' m'' object'' (h.started.mp hmem) (h.started.mp hmem')
  replied m' reply' hmem := by
    rw [h.nextMessage]
    rw [h.log] at hmem
    rcases List.mem_cons.mp hmem with he | hmem
    · cases he
      exact (hi.started m object hstarted).1
    · exact hi.replied m' reply' ((List.mem_cons.mp hmem).resolve_left (by simp))
  starts m' call object' hmem hmem' :=
    hi.starts m' call object' (h.called.mp hmem) (h.started.mp hmem')
  syncing object' hmem := by
    obtain ⟨m', hstarted'⟩ := hi.syncing object' ((h.syncing object').mp hmem).1
    exact ⟨m', h.started.mpr hstarted'⟩
  pending object' m' := by
    rw [h.pending, h.syncing, h.started, hi.pending]
    exact and_right_comm
  answer m' call hmem := by
    have hcalled := h.called.mp hmem
    by_cases hm : m' = m
    · subst hm
      exact h.answer hi hsyncing hstarted hcalled
    · exact h.answer_of_ne hi hstarted hm hcalled

theorem Inv.step {s : Stores} (hi : s.Inv manager) (e : Event) : (s.step manager e).Inv manager := by
  cases e with
  | store profile changes => exact hi.store profile changes
  | synced object =>
      unfold Stores.step
      dsimp only
      split_ifs with h
      · obtain ⟨m, hstarted⟩ := hi.syncing object h
        exact hi.signalled h hstarted (hi.ends h hstarted _ _ _)
      · exact hi
  | error object message =>
      unfold Stores.step
      dsimp only
      split_ifs with h
      · obtain ⟨m, hstarted⟩ := hi.syncing object h
        exact hi.signalled h hstarted (hi.ends h hstarted _ s.database s.objects)
      · exact hi
  | changed database =>
      exact ⟨hi.called, hi.calledOnce, hi.started, hi.unique, hi.replied, hi.starts, hi.syncing,
        hi.pending, hi.answer⟩

theorem reachable_inv {database : Database} {guard : Stores → Event → Prop} {s : Stores}
    (h : Reachable (machine manager database) guard s) : s.Inv manager :=
  h.invariant (inv_start manager database) fun _ _ _ hi _ hrun => by
    obtain rfl := Except.ok.inj hrun
    exact hi.step _

/-- When all syncs have ended, a call has been answered once, with its own outcome, if and only
if it was denied, or created an account, or named one that existed. -/
theorem store_answered_iff (manager : Manager) (database : Database) {s : Stores}
    (h : Reachable (machine manager database) (fun _ _ => True) s) (hended : s.syncing = [])
    {m : ℕ} {call : Call} (hcall : .called m call ∈ s.log) :
    s.AnsweredOnce m call ↔ call.Answerable := by
  have hanswer := (reachable_inv h).answer m call hcall
  have hdenied := call.store_eq_accessDenied_iff manager
  rw [← not_iff_not, ← call.store_eq_notLoaded_iff manager]
  unfold Answer at hanswer
  unfold AnsweredOnce Outcome
  cases hstore : call.store manager with
  | accessDenied =>
      rw [hstore] at hanswer
      refine iff_of_false (not_not.mpr ⟨_, hanswer, ?_⟩) (by simp)
      rw [if_pos (hdenied.mp hstore)]
  | notLoaded =>
      rw [hstore] at hanswer
      dsimp only at hanswer
      refine iff_of_true ?_ rfl
      rintro ⟨reply, hreply, -⟩
      rw [hanswer] at hreply
      cases hreply
  | syncing account =>
      rw [hstore] at hanswer
      obtain ⟨object, hstarted, hreply⟩ := hanswer
      rw [hended, if_neg List.not_mem_nil] at hreply
      obtain ⟨reply, hsignalled, hreplies⟩ := hreply
      refine iff_of_false (not_not.mpr ⟨reply, hreplies, ?_⟩) (by simp)
      rw [if_neg]
      · exact ⟨object, hstarted, hsignalled⟩
      · intro hp
        rw [hdenied.mpr hp] at hstore
        cases hstore

/-- A new account of the plugin of `com.ubuntu.plugin_app`. -/
def creation : AccountChanges :=
  { accountId := 0, created := true, deleted := false, provider := "com.ubuntu.plugin_app" }

/-- Another plugin tries the same. -/
def createdAndDenied : List Event :=
  [.store "com.ubuntu.plugin_app_0.1" creation, .store "com.ubuntu.other_app_0.1" creation,
    .synced 0]

theorem store_answered_iff_created :
    ∃ s, (machine {} (.ofList [])).run { database := .ofList [] } createdAndDenied = .ok s ∧
      s.repliesTo 0 = [.accountId 1] ∧
      (s.AnsweredOnce 0 ⟨"com.ubuntu.plugin_app_0.1", creation, .ofList []⟩ ↔
        Call.Answerable ⟨"com.ubuntu.plugin_app_0.1", creation, .ofList []⟩) := by
  have hallows : (machine {} (.ofList [])).Allows (fun _ _ => True) { database := .ofList [] }
      createdAndDenied := by decide
  refine ⟨_, rfl, by decide, ?_⟩
  apply store_answered_iff {} (.ofList [])
  · exact reachable_of_run_from .start hallows rfl
  · decide
  · exact List.mem_of_getElem? (i := 5) rfl

/-- An edit of an account that another program has deleted. -/
def lateEdit : Call :=
  ⟨"com.ubuntu.plugin_app_0.1", { creation with accountId := 5, created := false }, .ofList []⟩

/-- It gets no reply. -/
theorem unknown_account_unanswered :
    ∃ s, (machine {} (.ofList [])).run { database := .ofList [] }
        [.store lateEdit.profile lateEdit.changes] = .ok s ∧
      s.syncing = [] ∧ .called 0 lateEdit ∈ s.log ∧ ¬ s.AnsweredOnce 0 lateEdit := by
  refine ⟨_, rfl, by decide, List.mem_of_getElem? (i := 0) rfl, ?_⟩
  rintro ⟨reply, hreply, -⟩
  cases hreply

end Stores

end LibaccountsService

end OnlineAccounts
