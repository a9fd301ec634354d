import OnlineAccounts.UiServer

/-! # The operations as variant maps

Both processes put an operation into a `QVariantMap` (`sendRequest` of `ui-proxy.cpp`,
`onRequestCompleted` and `registerHandler` of `ui-server.cpp`), and each takes the map apart again
in its `onDataReady`, by the keys of `ipc.h`.  The ids and the delays are `int`s; an id that is
missing is `-1` for the proxy and `0` for the UI process. -/

namespace OnlineAccounts

/-! ### The keys and codes of `ipc.h` -/

def OAU_OPERATION_CODE : String := "code"
def OAU_OPERATION_CODE_PROCESS : String := "process"
def OAU_OPERATION_CODE_REGISTER_HANDLER : String := "newHandler"
def OAU_OPERATION_CODE_REQUEST_FINISHED : String := "finished"
def OAU_OPERATION_CODE_REQUEST_FAILED : String := "failed"
def OAU_OPERATION_ID : String := "id"
def OAU_OPERATION_DATA : String := "data"
def OAU_OPERATION_DELAY : String := "delay"
def OAU_OPERATION_INTERFACE : String := "interface"
def OAU_OPERATION_CLIENT_PROFILE : String := "profile"
def OAU_OPERATION_ERROR_NAME : String := "errname"
def OAU_OPERATION_ERROR_MESSAGE : String := "errmsg"
def OAU_OPERATION_HANDLER_ID : String := "handlerId"

/-- `toInt()`: 32 bits wide, `0` when the value is no number. -/
def QVariant.toInt : QVariant → ℤ
  | .bool b => if b then 1 else 0
  | .int n => n.bmod (2 ^ 32)
  | .uint n => (n : ℤ).bmod (2 ^ 32)
  | .string s =>
      let number := match s.toList with
        | '-' :: digits => (decimal (String.ofList digits)).map fun n => -(n : ℤ)
        | _ => (decimal s).map Int.ofNat
      match number with
      | some n => if -2 ^ 31 ≤ n ∧ n < 2 ^ 31 then n else 0
      | none => 0
  | _ => 0

/-- `value(key, defaultValue)`. -/
def QVariantMap.valueOr (m : QVariantMap) (key : String) (defaultValue : QVariant) : QVariant :=
  if m.contains key then m.value key else defaultValue

namespace Operation

/-- The map that is sent for an operation. -/
def toMap : Operation → QVariantMap
  | .process id data interface clientProfile =>
      ((((QVariantMap.nil.insert OAU_OPERATION_CODE (.string OAU_OPERATION_CODE_PROCESS)).insert
        OAU_OPERATION_ID (.int id)).insert
        OAU_OPERATION_DATA (.map data)).insert
        OAU_OPERATION_INTERFACE (.string interface)).insert
        OAU_OPERATION_CLIENT_PROFILE (.string clientProfile)
  | .finished id data delay interface =>
      ((((QVariantMap.nil.insert
        OAU_OPERATION_CODE (.string OAU_OPERATION_CODE_REQUEST_FINISHED)).insert
        OAU_OPERATION_ID (.int id)).insert
        OAU_OPERATION_DATA (.map data)).insert
        OAU_OPERATION_DELAY (.int delay)).insert
        OAU_OPERATION_INTERFACE (.string interface)
  | .failed id interface errorName errorMessage =>
      ((((QVariantMap.nil.insert
        OAU_OPERATION_CODE (.string OAU_OPERATION_CODE_REQUEST_FAILED)).insert
        OAU_OPERATION_ID (.int id)).insert
        OAU_OPERATION_INTERFACE (.string interface)).insert
        OAU_OPERATION_ERROR_NAME (.string errorName)).insert
        OAU_OPERATION_ERROR_MESSAGE (.string errorMessage)
  | .newHandler handlerId =>
      (QVariantMap.nil.insert
        OAU_OPERATION_CODE (.string OAU_OPERATION_CODE_REGISTER_HANDLER)).insert
        OAU_OPERATION_HANDLER_ID (.string handlerId)
  | .other code => QVariantMap.nil.insert OAU_OPERATION_CODE (.string code)

/-- The numbers of the operation are `int`s. -/
def InRange : Operation → Prop
  | .process id _ _ _ | .failed id _ _ _ => -2 ^ 31 ≤ id ∧ id < 2 ^ 31
  | .finished id _ delay _ => (-2 ^ 31 ≤ id ∧ id < 2 ^ 31) ∧ -2 ^ 31 ≤ delay ∧ delay < 2 ^ 31
  | .newHandler _ | .other _ => True

instance : ∀ operation : Operation, Decidable operation.InRange
  | .process id _ _ _ | .failed id _ _ _ =>
      inferInstanceAs (Decidable (-2 ^ 31 ≤ id ∧ id < 2 ^ 31))
  | .finished id _ delay _ => inferInstanceAs
      (Decidable ((-2 ^ 31 ≤ id ∧ id < 2 ^ 31) ∧ -2 ^ 31 ≤ delay ∧ delay < 2 ^ 31))
  | .newHandler _ | .other _ => .isTrue trivial

/-- The operation is one that a proxy sends. -/
def FromProxy : Operation → Prop
  | .process _ _ _ _ => True
  | _ => False

/-- The operation is one that a UI process sends. -/
def FromServer : Operation → Prop
  | .finished _ _ _ _ | .failed _ _ _ _ | .newHandler _ => True
  | _ => False

end Operation

/-- The operation that `UiServerPrivate::onDataReady` finds in a map. -/
def UiServer.readOperation (map : QVariantMap) : Operation :=
  let code := (map.value OAU_OPERATION_CODE).toString
  if code = OAU_OPERATION_CODE_PROCESS then
    .process (map.value OAU_OPERATION_ID).toInt (map.value OAU_OPERATION_DATA).toMap
      (map.value OAU_OPERATION_INTERFACE).toString (map.value OAU_OPERATION_CLIENT_PROFILE).toString
  else .other code

/-- The operation that `UiProxyPrivate::onDataReady` finds in a map; it does not look at the
interface. -/
def UiProxy.readOperation (map : QVariantMap) : Operation :=
  let requestId := (map.valueOr OAU_OPERATION_ID (.int (-1))).toInt
  let code := (map.value OAU_OPERATION_CODE).toString
  if code = OAU_OPERATION_CODE_REQUEST_FINISHED then
    .finished requestId (map.value OAU_OPERATION_DATA).toMap (map.value OAU_OPERATION_DELAY).toInt
      (map.value OAU_OPERATION_INTERFACE).toString
  else if code = OAU_OPERATION_CODE_REQUEST_FAILED then
    .failed requestId (map.value OAU_OPERATION_INTERFACE).toString
      (map.value OAU_OPERATION_ERROR_NAME).toString
      (map.value OAU_OPERATION_ERROR_MESSAGE).toString
  else if code = OAU_OPERATION_CODE_REGISTER_HANDLER then
    .newHandler (map.value OAU_OPERATION_HANDLER_ID).toString
  else .other code

/-! ### What is read is what was sent -/

theorem QVariant.toInt_int {n : ℤ} (h : -2 ^ 31 ≤ n ∧ n < 2 ^ 31) : (QVariant.int n).toInt = n := by
  refine Int.bmod_eq_of_le ?_ ?_
  · norm_num at h ⊢
    exact h.1
  · norm_num at h ⊢
    exact h.2

namespace QVariantMap

@[simp] theorem value_nil (key : String) : nil.value key = .invalid := rfl

@[simp] theorem value_insert (key : String) (v : QVariant) (key' : String) : ∀ m : QVariantMap,
    (m.insert key v).value key' = if key = key' then v else m.value key'
  | nil => rfl
  | cons k w rest => by
      unfold QVariantMap.insert
      by_cases hk : k = key
      · by_cases hkey : key = key'
        · simp [hk, hkey]
        · simp [hk, hkey]
      · rw [if_neg hk, value_cons, value_insert key v key' rest, value_cons]
        by_cases hkey : key = key'
        · have hne : k ≠ key' := fun h => hk (h.trans hkey.symm)
          simp [hkey, hne]
        · simp [hkey]

theorem valueOr_of_ne {m : QVariantMap} {key : String} (h : m.value key ≠ .invalid)
    (defaultValue : QVariant) : m.valueOr key defaultValue = m.value key :=
  if_pos (contains_of_value_ne key m h)

end QVariantMap

/-- The UI process reads what a proxy has sent. -/
theorem UiServer.readOperation_toMap {operation : Operation} (h : operation.FromProxy)
    (hrange : operation.InRange) : UiServer.readOperation operation.toMap = operation := by
  cases operation with
  | process id data interface clientProfile =>
      have hid := QVariant.toInt_int hrange
      simp [UiServer.readOperation, Operation.toMap, OAU_OPERATION_CODE, OAU_OPERATION_ID,
        OAU_OPERATION_DATA, OAU_OPERATION_INTERFACE, OAU_OPERATION_CLIENT_PROFILE, hid,
        QVariant.toString, QVariant.toMap]
  | _ => exact h.elim

/-- The proxy reads what its UI process has sent. -/
theorem UiProxy.readOperation_toMap {operation : Operation} (h : operation.FromServer)
    (hrange : operation.InRange) : UiProxy.readOperation operation.toMap = operation := by
  cases operation with
  | finished id data delay interface =>
      have hid := QVariant.toInt_int hrange.1
      have hdelay := QVariant.toInt_int hrange.2
      have hvalue : (Operation.finished id data delay interface).toMap.value OAU_OPERATION_ID =
          .int id := by
        simp [Operation.toMap, OAU_OPERATION_CODE, OAU_OPERATION_ID, OAU_OPERATION_DATA,
          OAU_OPERATION_INTERFACE, OAU_OPERATION_DELAY]
      rw [UiProxy.readOperation, QVariantMap.valueOr_of_ne (by simp [hvalue]), hvalue]
      simp [Operation.toMap, OAU_OPERATION_CODE, OAU_OPERATION_ID, OAU_OPERATION_DATA,
        OAU_OPERATION_INTERFACE, OAU_OPERATION_DELAY, hid, hdelay, QVariant.toString,
        QVariant.toMap]
  | failed id interface errorName errorMessage =>
      have hid := QVariant.toInt_int hrange
      have hvalue : (Operation.failed id interface errorName errorMessage).toMap.value
          OAU_OPERATION_ID = .int id := by
        simp [Operation.toMap, OAU_OPERATION_CODE, OAU_OPERATION_ID, OAU_OPERATION_INTERFACE,
          OAU_OPERATION_ERROR_NAME, OAU_OPERATION_ERROR_MESSAGE]
      rw [UiProxy.readOperation, QVariantMap.valueOr_of_ne (by simp [hvalue]), hvalue]
      simp [Operation.toMap, OAU_OPERATION_CODE, OAU_OPERATION_ID, OAU_OPERATION_INTERFACE,
        OAU_OPERATION_ERROR_NAME, OAU_OPERATION_ERROR_MESSAGE, hid, QVariant.toString,
        OAU_OPERATION_CODE_REQUEST_FINISHED, OAU_OPERATION_CODE_REQUEST_FAILED]
  | newHandler handlerId =>
      simp [UiProxy.readOperation, Operation.toMap, OAU_OPERATION_CODE, OAU_OPERATION_HANDLER_ID,
        OAU_OPERATION_CODE_REGISTER_HANDLER, OAU_OPERATION_CODE_REQUEST_FINISHED,
        OAU_OPERATION_CODE_REQUEST_FAILED, QVariant.toString]
  | _ => exact h.elim

end OnlineAccounts
