import Mathlib.Tactic

/-! # Variants, variant maps and application ids

The D-Bus calls and the messages between the two processes carry `QVariantMap`s, and the
code reads them with `value(key).toString()`, `.toUInt()` and `.toMap()`.  `QVariant` keeps
the kinds of value that these conversions distinguish; a conversion that does not apply gives
the default of its target type, as in Qt, and `value` of a missing key is the invalid variant.

Application ids have the form `package_app_version` and are taken apart with `split('_')`,
which keeps empty components (`split`, `join`). -/

namespace OnlineAccounts

mutual

/-- A `QVariant`, by the kinds of value the code tells apart. -/
inductive QVariant where
  | invalid
  | bool (b : Bool)
  | int (n : ℤ)
  | uint (n : ℕ)
  | string (s : String)
  | map (m : QVariantMap)

/-- A `QVariantMap`: the entries of the map in the order of their keys. -/
inductive QVariantMap where
  | nil
  | cons (key : String) (value : QVariant) (rest : QVariantMap)

end

deriving instance DecidableEq for QVariant
deriving instance DecidableEq for QVariantMap

/-! ### Conversions -/

/-- The number written by a nonempty string of decimal digits. -/
def decimal (s : String) : Option ℕ :=
  let cs := s.toList
  if cs ≠ [] ∧ cs.all Char.isDigit then
    some (cs.foldl (fun n c => 10 * n + (c.toNat - '0'.toNat)) 0)
  else none

namespace QVariantMap

/-- `value(key)`: the invalid variant when the key is missing. -/
def value : QVariantMap → String → QVariant
  | nil, _ => .invalid
  | cons k v rest, key => if k = key then v else rest.value key

def contains : QVariantMap → String → Bool
  | nil, _ => false
  | cons k _ rest, key => k == key || rest.contains key

def isEmpty : QVariantMap → Bool
  | nil => true
  | cons _ _ _ => false

/-- `insert(key, value)`: a new key, or a new value under an old one. -/
def insert : QVariantMap → String → QVariant → QVariantMap
  | nil, key, v => cons key v nil
  | cons k w rest, key, v => if k = key then cons k v rest else cons k w (rest.insert key v)

/-- The entries, in the order in which a `QMapIterator` visits them. -/
def entries : QVariantMap → List (String × QVariant)
  | nil => []
  | cons k v rest => (k, v) :: rest.entries

end QVariantMap

namespace QVariant

def toString : QVariant → String
  | bool b => if b then "true" else "false"
  | int n => n.repr
  | uint n => n.repr
  | string s => s
  | _ => ""

/-- `toUInt()`: 32 bits wide, `0` when the value is no number. -/
def toUInt : QVariant → ℕ
  | bool b => if b then 1 else 0
  | int n => (n % 2 ^ 32).toNat
  | uint n => n % 2 ^ 32
  | string s => match decimal s with
    | some n => if n < 2 ^ 32 then n else 0
    | none => 0
  | _ => 0

def toMap : QVariant → QVariantMap
  | map m => m
  | _ => .nil

/-- `operator==`: values of different kinds are compared after a conversion, if there is one. -/
def equals : QVariant → QVariant → Bool
  | int a, uint b => a == b
  | uint a, int b => a == b
  | uint a, string s => decimal s == some a
  | string s, uint a => decimal s == some a
  | int a, string s => (decimal s).map Int.ofNat == some a
  | string s, int a => (decimal s).map Int.ofNat == some a
  | a, b => a == b

end QVariant

/-- `mapIsSuperset(test, set)`: `test` has every entry of `set`. -/
def mapIsSuperset (test set : QVariantMap) : Bool :=
  set.entries.all fun e => (test.value e.1).equals e.2

namespace QVariantMap

@[simp] theorem value_cons (k : String) (v : QVariant) (rest : QVariantMap) (key : String) :
    (cons k v rest).value key = if k = key then v else rest.value key := rfl

theorem contains_of_value_ne (key : String) : ∀ m : QVariantMap,
    m.value key ≠ .invalid → m.contains key = true
  | nil, h => absurd rfl h
  | cons k v rest, h => by
      by_cases hk : k = key
      · simp [contains, hk]
      · rw [value_cons, if_neg hk] at h
        simp [contains, contains_of_value_ne key rest h]

end QVariantMap

/-! ### Keys and names of `globals.h` and of the sign-on headers -/

def OAU_INTERFACE : String := "com.ubuntu.OnlineAccountsUi"
def SIGNONUI_INTERFACE : String := "com.nokia.singlesignonui"

def OAU_KEY_APPLICATION : String := "application"
def OAU_KEY_PROVIDER : String := "provider"
def OAU_KEY_SERVICE_ID : String := "serviceId"
def OAU_KEY_WINDOW_ID : String := "windowId"
def OAU_KEY_PID : String := "pid"

def OAU_ERROR_USER_CANCELED : String := "com.ubuntu.OnlineAccountsUi.UserCanceled"
def OAU_ERROR_INVALID_APPLICATION : String := "com.ubuntu.OnlineAccountsUi.InvalidApplication"
def OAU_ERROR_INVALID_SERVICE : String := "com.ubuntu.OnlineAccountsUi.InvalidService"
def OAU_ERROR_PROMPT_SESSION : String := "com.ubuntu.OnlineAccountsUi.NoPromptSession"

def OAU_REQUEST_MATCH_KEY : String := "X-RequestHandler"

def SSOUI_KEY_CLIENT_DATA : String := "ClientData"
def SSOUI_KEY_REQUESTID : String := "requestId"
def SSOUI_KEY_PID : String := "pid"

/-! ### Splitting application ids -/

/-- `QString::split(sep)`, keeping empty components. -/
def split (sep : Char) (s : String) : List String := (s.toList.splitOn sep).map String.ofList

/-- `QStringList::join(sep)`. -/
def join (sep : Char) (components : List String) : String :=
  String.ofList ([sep].intercalate (components.map String.toList))

/-- `stripVersion` of `libaccounts-service.cpp` and of the click hooks: an id that has not
three components is kept as it is. -/
def stripVersion (appId : String) : String :=
  let components := split '_' appId
  if components.length ≠ 3 then appId else join '_' components.dropLast

theorem join_split (sep : Char) (s : String) : join sep (split sep s) = s := by
  have hlists : (split sep s).map String.toList = s.toList.splitOn sep := by
    simp [split]
  unfold join
  rw [hlists, List.intercalate_splitOn, String.ofList_toList]

theorem exists_of_components {appId : String} (h : (split '_' appId).length = 3) :
    ∃ version, appId.toList = (stripVersion appId).toList ++ '_' :: version := by
  obtain ⟨package, app, version, hsplit⟩ := List.length_eq_three.mp h
  have hjoin := join_split '_' appId
  refine ⟨version.toList, ?_⟩
  unfold stripVersion
  rw [if_neg (by simp [h])]
  conv_lhs => rw [← hjoin]
  simp [hsplit, join, List.intercalate]

/-- What is left of an id is in front of the rest of it. -/
theorem stripVersion_prefix (appId : String) : (stripVersion appId).toList <+: appId.toList := by
  by_cases h : (split '_' appId).length = 3
  · obtain ⟨version, hversion⟩ := exists_of_components h
    exact ⟨_, hversion.symm⟩
  · unfold stripVersion
    rw [if_pos h]

end OnlineAccounts
