import OnlineAccounts.GVariantText
import OnlineAccounts.ManifestFile

/-! # The settings of a manifest

`ManifestFile::addSettings` makes XML of the settings in a manifest: a group for each object, a
group for each part of a key in front of its last one, and a `<setting>` for each value that it
supports.  A reader finds the path of a setting in the names of the groups around it.

The settings that are read are those of the JSON (`readSettings_addSettings`): as far as the path
is concerned, it is the same whether a group comes from an object or from a part of a key. -/

namespace OnlineAccounts.AccountsHook

open Markup

/-- A setting, with its path in the groups. -/
structure Setting where
  path : String
  type : String
  text : String
deriving DecidableEq

/-! ### Reading the XML -/

/-- The value of an attribute, empty when there is none. -/
def attributeValue (name : String) (attributes : List (String × String)) : String :=
  (attributes.lookup name).getD ""

mutual

/-- The settings at a node, in document order; `groups` are the names of the groups around it. -/
def settingsAt (groups : List String) : Node → List Setting
  | .element tag attributes children =>
      let path := groups ++ [attributeValue "name" attributes]
      if tag = "group" then readSettings path children
      else if tag = "setting" then
        [⟨join '/' path, attributeValue "type" attributes, Node.content.contents children⟩]
      else []
  | .text _ => []
  | .cdata _ => []
  | .comment _ => []
  | .instruction _ _ => []

def readSettings (groups : List String) : List Node → List Setting
  | [] => []
  | n :: ns => settingsAt groups n ++ readSettings groups ns

end

/-! ### Flattening the JSON -/

mutual

/-- The settings in a value, which the keys lead to. -/
def flattenValue (keys : List String) : QJsonValue → List Setting
  | .bool b => [⟨join '/' keys, "b", if b then "true" else "false"⟩]
  | .string s => if s = "" then [] else [⟨join '/' keys, "", s⟩]
  | .array values => [⟨join '/' keys, "as", ManifestFile.arrayText values.toList⟩]
  | .object members => flatten keys members
  | .null => []
  | .double => []

def flatten (keys : List String) : QJsonObject → List Setting
  | .nil => []
  | .cons key value rest => flattenValue (keys ++ [key]) value ++ flatten keys rest

end

/-! ### Paths -/

theorem join_append (sep : Char) {ks ls : List String} (hks : ks ≠ []) (hls : ls ≠ []) :
    join sep (ks ++ ls) = join sep ks ++ (String.singleton sep ++ join sep ls) := by
  induction ks with
  | nil => exact absurd rfl hks
  | cons k ks ih =>
      by_cases hnil : ks = []
      · subst hnil
        obtain ⟨l, ls, rfl⟩ := List.exists_cons_of_ne_nil hls
        apply String.toList_injective
        simp [join]
      · obtain ⟨k', ks', rfl⟩ := List.exists_cons_of_ne_nil hnil
        have hcons (ms : List String) : join sep (k :: k' :: ms) =
            k ++ (String.singleton sep ++ join sep (k' :: ms)) := by
          apply String.toList_injective
          simp [join]
        have htail := ih (List.cons_ne_nil _ _)
        rw [List.cons_append] at htail
        rw [List.cons_append, List.cons_append, hcons, hcons, htail, String.append_assoc,
          String.append_assoc]

/-- Two lists of names make the same path, also in front of other names. -/
structure SamePath (ks ls : List String) : Prop where
  nil_iff : ks = [] ↔ ls = []
  join_eq : join '/' ks = join '/' ls

theorem SamePath.refl (ks : List String) : SamePath ks ks := ⟨Iff.rfl, rfl⟩

theorem SamePath.append {ks ls ks' ls' : List String} (h : SamePath ks ls)
    (h' : SamePath ks' ls') : SamePath (ks ++ ks') (ls ++ ls') := by
  refine ⟨by rw [List.append_eq_nil_iff, List.append_eq_nil_iff, h.nil_iff, h'.nil_iff], ?_⟩
  by_cases hls : ls = []
  · rw [h.nil_iff.2 hls, hls, List.nil_append, List.nil_append, h'.join_eq]
  by_cases hls' : ls' = []
  · rw [h'.nil_iff.2 hls', hls', List.append_nil, List.append_nil, h.join_eq]
  · rw [join_append _ (mt h.nil_iff.1 hls) (mt h'.nil_iff.1 hls'), join_append _ hls hls',
      h.join_eq, h'.join_eq]

theorem split_ne_nil (sep : Char) (s : String) : split sep s ≠ [] := by
  simp [split, List.splitOn_ne_nil]

/-- The parts of a key make the path of the key. -/
theorem samePath_split (key : String) : SamePath (split '/' key) [key] :=
  ⟨by simp [split_ne_nil], (join_split '/' key).trans (by simp [join])⟩

/-! ### Reading what `addSettings` writes -/

theorem readSettings_append (groups : List String) (ns ms : List Node) :
    readSettings groups (ns ++ ms) = readSettings groups ns ++ readSettings groups ms := by
  induction ns with
  | nil => rfl
  | cons n ns ih => rw [List.cons_append, readSettings, readSettings, ih, List.append_assoc]

open ManifestFile in
theorem readSettings_addSetting (groups : List String) (name value type : String) :
    readSettings groups [addSetting name value type] =
      [⟨join '/' (groups ++ [name]), type, value⟩] := by
  by_cases htype : type = ""
  · simp [readSettings, settingsAt, addSetting, attributeValue, Node.content.contents, Node.content,
      htype]
  · simp [readSettings, settingsAt, addSetting, attributeValue, Node.content.contents, Node.content,
      htype, List.lookup_cons]

open ManifestFile in
theorem readSettings_createGroup (groups : List String) (name : String) (children : List Node) :
    readSettings groups [createGroup name children] = readSettings (groups ++ [name]) children := by
  simp [readSettings, settingsAt, createGroup, attributeValue]

open ManifestFile in
theorem readSettings_openGroups (groups parts : List String) (children : List Node) :
    readSettings groups (openGroups parts children) = readSettings (groups ++ parts) children := by
  induction parts generalizing groups with
  | nil => rw [List.append_nil]; rfl
  | cons part parts ih =>
      have hopen : openGroups (part :: parts) children =
          [createGroup part (openGroups parts children)] := rfl
      rw [hopen, readSettings_createGroup, ih, List.append_assoc, List.singleton_append]

mutual

theorem readSettings_settingNodes {groups keys : List String} {name : String}
    (h : SamePath (groups ++ [name]) keys) : ∀ value : QJsonValue,
    readSettings groups (ManifestFile.settingNodes name value) = flattenValue keys value
  | .bool b => by
      rw [ManifestFile.settingNodes, readSettings_addSetting, flattenValue, h.join_eq]
  | .string s => by
      rw [ManifestFile.settingNodes, flattenValue]
      split
      · rfl
      · rw [readSettings_addSetting, h.join_eq]
  | .array values => by
      rw [ManifestFile.settingNodes, readSettings_addSetting, flattenValue, h.join_eq]
  | .object members => by
      rw [ManifestFile.settingNodes, readSettings_createGroup, flattenValue]
      exact readSettings_members h members
  | .null => rfl
  | .double => rfl

/-- An object is read as its members, wherever it stands. -/
theorem readSettings_members {groups keys : List String} (h : SamePath groups keys) :
    ∀ json : QJsonObject,
      readSettings groups (ManifestFile.addSettings json) = flatten keys json
  | .nil => rfl
  | .cons key value rest => by
      -- the parts of the key are the names of the groups, and the name of the setting
      have hparts : (split '/' key).dropLast ++ [(split '/' key).getLastD ""] = split '/' key := by
        rw [List.getLastD_eq_getLast?, List.getLast?_eq_some_getLast (split_ne_nil _ _)]
        exact List.dropLast_append_getLast _
      have hpath : SamePath ((groups ++ (split '/' key).dropLast) ++
          [(split '/' key).getLastD ""]) (keys ++ [key]) := by
        rw [List.append_assoc, hparts]
        exact h.append (samePath_split key)
      rw [ManifestFile.addSettings, flatten, readSettings_append, readSettings_openGroups,
        readSettings_settingNodes hpath value, readSettings_members h rest]

end

mutual

/-- The path is all that matters of the keys. -/
theorem SamePath.flattenValue_eq {ks ls : List String} (h : SamePath ks ls) :
    ∀ value : QJsonValue, flattenValue ks value = flattenValue ls value
  | .bool b => by rw [flattenValue, flattenValue, h.join_eq]
  | .string s => by rw [flattenValue, flattenValue, h.join_eq]
  | .array values => by rw [flattenValue, flattenValue, h.join_eq]
  | .object members => by
      rw [flattenValue, flattenValue]
      exact h.flatten_eq members
  | .null => rfl
  | .double => rfl

theorem SamePath.flatten_eq {ks ls : List String} (h : SamePath ks ls) :
    ∀ json : QJsonObject, flatten ks json = flatten ls json
  | .nil => rfl
  | .cons key value rest => by
      rw [flatten, flatten, (h.append (.refl [key])).flattenValue_eq value, h.flatten_eq rest]

end

/-- An object in an object and so on, with one member each, around a value. -/
def nested (value : QJsonValue) (key : String) : List String → QJsonObject
  | [] => .cons key value .nil
  | key' :: keys => .cons key (.object (nested value key' keys)) .nil

theorem flatten_nested (value : QJsonValue) (keys : List String) (key : String)
    (keys' : List String) :
    flatten keys (nested value key keys') = flattenValue (keys ++ key :: keys') value := by
  induction keys' generalizing keys key with
  | nil => rw [nested, flatten, flatten, List.append_nil]
  | cons key' keys' ih =>
      rw [nested, flatten, flatten, List.append_nil, flattenValue, ih, List.append_assoc,
        List.singleton_append]

/-- The settings that are read from the XML, with paths that start with the groups it stands in, are
those of the JSON, in the same order.  Nested objects give the same settings as one key with
slashes. -/
theorem readSettings_addSettings (groups : List String) (json : QJsonObject) :
    readSettings groups (ManifestFile.addSettings json) = flatten groups json ∧
      ∀ (key : String) (keys : List String) (value : QJsonValue),
        readSettings groups (ManifestFile.addSettings (nested value key keys)) =
          readSettings groups
            (ManifestFile.addSettings (.cons (join '/' (key :: keys)) value .nil)) := by
  refine ⟨readSettings_members (.refl groups) json, ?_⟩
  intro key keys value
  have hpath : SamePath (key :: keys) [join '/' (key :: keys)] := ⟨by simp, by simp [join]⟩
  calc readSettings groups (ManifestFile.addSettings (nested value key keys))
      = flatten groups (nested value key keys) := readSettings_members (.refl groups) _
    _ = flattenValue (groups ++ key :: keys) value := flatten_nested _ _ _ _
    _ = flattenValue (groups ++ [join '/' (key :: keys)]) value :=
        ((SamePath.refl groups).append hpath).flattenValue_eq value
    _ = flatten groups (.cons (join '/' (key :: keys)) value .nil) := by
        rw [flatten, flatten, List.append_nil]
    _ = readSettings groups
          (ManifestFile.addSettings (.cons (join '/' (key :: keys)) value .nil)) :=
        (readSettings_members (.refl groups) _).symm

-- a value in nested objects, behind a key with a slash
example : readSettings [] (ManifestFile.addSettings
    (.cons "a/b" (.object (.cons "c" (.bool true) (.cons "d" .null .nil)))
      (.cons "e" (.string "") .nil))) = [⟨"a/b/c", "b", "true"⟩] := by
  decide

/-! ### Arrays of strings -/

/-- The text of an array of strings. -/
def stringsText (strings : List String) : String :=
  ManifestFile.arrayText (strings.map .string)

/-- No string has a single quote or a backslash, or ends the text. -/
def AllPlain (strings : List String) : Prop := ∀ s ∈ strings, GVariantText.Plain s.toList

instance (strings : List String) : Decidable (AllPlain strings) :=
  inferInstanceAs (Decidable (∀ s ∈ strings, GVariantText.Plain s.toList))

theorem toList_stringsText (strings : List String) :
    (stringsText strings).toList = '[' :: GVariantText.quoted (strings.map String.toList) := by
  have hquoted : ∀ strings : List String,
      [','].intercalate (strings.map fun s => '\'' :: (s.toList ++ ['\''])) ++ [']'] =
        GVariantText.quoted (strings.map String.toList) := by
    intro strings
    induction strings with
    | nil => rfl
    | cons s strings ih =>
        cases strings with
        | nil => simp [GVariantText.quoted]
        | cons s' strings =>
            rw [List.map_cons (f := String.toList), GVariantText.quoted_cons _ (by simp), ← ih]
            simp
  rw [← hquoted]
  simp [stringsText, ManifestFile.arrayText, List.filterMap_map, Function.comp_def, join]

/-- Two lists of strings have literals that are read as these lists, and different ones if the lists
are different, exactly if no string has a character that is special in a literal. -/
theorem stringsText_iff (l l' : List String) :
    (GVariantText.parse (stringsText l) = some l ∧ GVariantText.parse (stringsText l') = some l' ∧
      (l ≠ l' → stringsText l ≠ stringsText l')) ↔ AllPlain l ∧ AllPlain l' := by
  have hparse (strings : List String) :
      GVariantText.parse (stringsText strings) = some strings ↔ AllPlain strings := by
    have h := GVariantText.parse_quoted_iff (toList_stringsText strings)
    rw [List.map_map, List.forall_mem_map] at h
    rw [AllPlain, ← h]
    simp [Function.comp_def]
  rw [hparse, hparse]
  constructor
  · exact fun h => ⟨h.1, h.2.1⟩
  · rintro ⟨hl, hl'⟩
    refine ⟨hl, hl', fun hne htext => hne ?_⟩
    have h := (hparse l).2 hl
    rw [htext, (hparse l').2 hl'] at h
    exact (Option.some.inj h).symm

/-- A quote, a comma and a quote in a string are read as the end of one element and the start of the
next: two different lists of scopes have the same text. -/
theorem stringsText_clash :
    ["mail','admin"] ≠ ["mail", "admin"] ∧
      stringsText ["mail','admin"] = stringsText ["mail", "admin"] ∧
      GVariantText.parse (stringsText ["mail','admin"]) ≠ some ["mail','admin"] := by
  decide

end OnlineAccounts.AccountsHook
