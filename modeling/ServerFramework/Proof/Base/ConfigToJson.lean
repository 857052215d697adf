import Mathlib.Algebra.Ring.Nat
import ServerFramework.Base.ConfigFile
import ServerFramework.Proof.Base.ConfigEscapes
import ServerFramework.Proof.Base.ConfigLoad

namespace ServerFramework.Base
open Library JsonParser ConfigNode

variable (n₀ : Char) {δ : Type} (c₀ : Char) (stod : Text → Except StdException δ) (showDouble : δ → Text)

/-! ## Flat objects -/

def Flat (members : List (Text × Json)) : Prop := ∀ m ∈ members, m.2.Fitting ∧ ∀ below, m.2 ≠ .object below

inductive Scalar : ConfigNode δ → Prop
  | null : Scalar (mk (some .null) [])
  | bool (b : Bool) : Scalar (mk (some (.bool b)) [])
  | int64 (i : Int) : Scalar (mk (some (.int64 i)) [])
  | string (s : Text) : Scalar (mk (some (.string s)) [])

structure FlatRoot (root : ConfigNode δ) : Prop where
  scalar : ∀ entry ∈ root.children, Scalar entry.2
  distinct : (root.children.map Prod.fst).Nodup

theorem scalar_node {tree : Json} (flat : ∀ below, tree ≠ .object below) : Scalar (tree.node : ConfigNode δ) := by
  cases tree with
  | null => exact .null
  | bool b => exact .bool b
  | int i => exact .int64 i
  | string s => exact .string s
  | object members => exact absurd rfl (flat members)

theorem flatRoot_members {members : List (Text × Json)} (flat : Flat members) :
    FlatRoot (Json.addAll members .empty : ConfigNode δ) := by
  have distinct : ((Json.addAll members .empty : ConfigNode δ).children.map Prod.fst).Nodup := by
    rw [Json.addAll_eq]
    exact nodup_putAll _ List.nodup_nil
  refine ⟨?_, distinct⟩
  rintro ⟨key, node⟩ member
  have found : (Json.addAll members .empty : ConfigNode δ).getKey key = some node :=
    (lookup_eq_some_iff_mem distinct).mpr member
  have absent : (empty : ConfigNode δ).getKey key = none := rfl
  rw [Json.addAll_eq, getKey_putAll, absent, Option.or_none] at found
  obtain ⟨front, back, same, -⟩ := List.lookup_eq_some_iff.mp found
  have among : (key, node) ∈ members.map fun m => (m.1, (m.2.node : ConfigNode δ)) := by
    rw [← List.mem_reverse, same]
    simp
  obtain ⟨m, inside, same⟩ := List.mem_map.mp among
  cases same
  exact scalar_node (flat m inside).2

theorem loads_flat {text : Text} {members : List (Text × Json)} (flat : Flat members)
    (rendered : RendersText text (.object members)) : Loads n₀ c₀ stod text (Json.addAll members .empty) := by
  refine loads_members n₀ c₀ stod (.object fun m among => (flat m among).1) ?_ rendered
  have leaf : ∀ m ∈ (Json.trees members : List (Text × Tree δ)), ∃ v, m.2 = .leaf v := by
    intro m among
    obtain ⟨value, inside, same⟩ := Json.mem_trees among
    rw [← same]
    cases value with
    | object below => exact absurd rfl ((flat _ inside).2 below)
    | null | bool | int | string => exact ⟨_, rfl⟩
  exact Tree.named_of_leaves leaf

/-! ## The text of plain entries -/

def content (entry : Text × ConfigNode δ) : Text := entry.1 ++ entry.2.asString.getD []

/-- What the loader makes of the text of a scalar. -/
def readBack (node : ConfigNode δ) : ConfigValue δ :=
  match node.value with
  | some (.string s) => .string s
  | some (.bool b) => .bool b
  | _ => .null

theorem writes_value {node : ConfigNode δ} (scalar : Scalar node) (ordinary : Ordinary (node.asString.getD [])) :
    Writes stod (Config.valueText showDouble node) (.leaf (readBack node)) := by
  cases scalar with
  | null => exact .token (by decide) (by simp [isDelimiter, isSpace]) rfl
  | bool b =>
      cases b with
      | false => exact .token (by decide) (by simp [isDelimiter, isSpace]) rfl
      | true => exact .token (by decide) (by simp [isDelimiter, isSpace]) rfl
  | int64 i => exact .token (by decide) (by simp [isDelimiter, isSpace]) rfl
  | string s => exact .string (spells_ordinary ordinary)

theorem writes_entry {entry : Text × ConfigNode δ} (scalar : Scalar entry.2) (ordinary : Ordinary (content entry))
    {blank : Text} (space : Blank blank) :
    WritesMember stod ('\n' :: (Config.entryText showDouble entry ++ blank)) (entry.1, .leaf (readBack entry.2)) := by
  have indent : Blank ['\n', ' ', ' '] := by simp [Blank, isSpace]
  have nothing : Blank [] := by simp [Blank]
  have one : Blank [' '] := by simp [Blank, isSpace]
  have parts := ordinary_append.mp ordinary
  have key := spells_ordinary parts.1
  have value := writes_value stod showDouble scalar parts.2
  have member := WritesMember.mk indent nothing one space key value
  have whole : ['\n', ' ', ' '] ++ '"' :: (entry.1 ++ '"' :: ([] ++ ':' ::
      ([' '] ++ (Config.valueText showDouble entry.2 ++ blank)))) =
      '\n' :: (Config.entryText showDouble entry ++ blank) := by
    simp [Config.entryText]
  rw [whole] at member
  exact member

def readTree (entries : List (Text × ConfigNode δ)) : List (Text × Tree δ) :=
  entries.map fun entry => (entry.1, .leaf (readBack entry.2))

theorem writes_entries {entries : List (Text × ConfigNode δ)} (nonempty : entries ≠ [])
    (scalar : ∀ entry ∈ entries, Scalar entry.2) (ordinary : ∀ entry ∈ entries, Ordinary (content entry)) :
    WritesMembers stod ('\n' :: ([',', '\n'].intercalate (entries.map (Config.entryText showDouble)) ++ ['\n']))
      (readTree entries) := by
  induction entries with
  | nil => exact absurd rfl nonempty
  | cons entry entries ih =>
      have first {blank : Text} (space : Blank blank) := writes_entry stod showDouble (scalar entry List.mem_cons_self)
        (ordinary entry List.mem_cons_self) space
      cases entries with
      | nil =>
          rw [List.map_singleton, List.intercalate_singleton]
          exact .last (first (by simp [Blank, isSpace]))
      | cons next entries =>
          have others := ih (List.cons_ne_nil _ _) (fun e among => scalar e (List.mem_cons_of_mem _ among))
            fun e among => ordinary e (List.mem_cons_of_mem _ among)
          have nothing : Blank [] := by simp [Blank]
          have whole := WritesMembers.more (first nothing) others
          have shape (front back : Text) : '\n' :: (front ++ [',', '\n'] ++ back ++ ['\n']) =
              '\n' :: (front ++ []) ++ ',' :: '\n' :: (back ++ ['\n']) := by
            simp
          rw [List.map_cons, List.map_cons, List.intercalate_cons_cons, ← List.map_cons, shape]
          exact whole

theorem loads_toJson {entries : List (Text × ConfigNode δ)} (scalar : ∀ entry ∈ entries, Scalar entry.2)
    (ordinary : ∀ entry ∈ entries, Ordinary (content entry)) (pretty : Bool) :
    Loads n₀ c₀ stod (Config.toJson showDouble entries pretty)
      (putAll (entries.map fun entry => (entry.1, mk (some (readBack entry.2)) [])) .empty) := by
  let inside : Text := '\n' :: ([',', '\n'].intercalate (entries.map (Config.entryText showDouble)) ++ ['\n'])
  have reads : Loader.ReadsInside n₀ c₀ stod (fun fuel : { fuel // 0 ≤ fuel } => fuel.1) inside
      (Tree.walk (readTree entries)) := by
    by_cases empty : entries = []
    · subst empty
      exact Loader.readsInside_blank n₀ c₀ stod _ (by simp [inside, Blank, isSpace])
    · exact Loader.readsInside_of_writes n₀ c₀ stod _ (writes_entries stod showDouble empty scalar ordinary)
  have nothing : Blank [] := by simp [Blank]
  have loaded := loads_inside n₀ c₀ stod reads nothing nothing
  have named : (Tree.object (readTree entries)).Named := by
    apply Tree.named_of_leaves
    intro m among
    obtain ⟨entry, -, rfl⟩ := List.mem_map.mp among
    exact ⟨_, rfl⟩
  have whole : [] ++ ('{' :: (inside ++ ['}']) ++ []) = Config.toJson showDouble entries pretty := by
    simp [inside, Config.toJson]
  rw [named.walk_acts.root, whole, Tree.nodes_eq, readTree, List.map_map] at loaded
  exact loaded

/-! ## What comes back -/

def SameEntries (root other : ConfigNode δ) : Prop :=
  ∀ key, (root.getKey key).map value = (other.getKey key).map value

def RoundTrips (entries : List (Text × ConfigNode δ)) (pretty : Bool) (root : ConfigNode δ) : Prop :=
  ∃ other, Loads n₀ c₀ stod (Config.toJson showDouble entries pretty) other ∧ SameEntries other root

structure Kept (entry : Text × ConfigNode δ) : Prop where
  key : Ordinary entry.1
  string : ∀ s, entry.2.value = some (.string s) → Ordinary s
  other : ∀ i, entry.2.value ≠ some (.int64 i)

theorem Kept.content {entry : Text × ConfigNode δ} (kept : Kept entry) (scalar : Scalar entry.2) :
    Ordinary (content entry) := by
  apply ordinary_append.mpr
  refine ⟨kept.key, ?_⟩
  obtain ⟨key, node⟩ := entry
  cases scalar with
  | null | bool | int64 => exact fun c inside => absurd inside List.not_mem_nil
  | string s => exact kept.string s rfl

theorem getKey_entry {root : ConfigNode δ} (flat : FlatRoot root) {entries : List (Text × ConfigNode δ)}
    (order : entries.Perm root.children) (key : Text) : root.getKey key = entries.lookup key :=
  (lookup_perm flat.distinct order.symm key)

theorem sameEntries_iff {root : ConfigNode δ} (flat : FlatRoot root) {entries : List (Text × ConfigNode δ)}
    (order : entries.Perm root.children) :
    SameEntries (putAll (entries.map fun entry => (entry.1, mk (some (readBack entry.2)) [])) .empty) root ↔
      ∀ entry ∈ entries, some (readBack entry.2) = entry.2.value := by
  have distinct : (entries.map Prod.fst).Nodup := (order.map Prod.fst).nodup_iff.mpr flat.distinct
  have found (key : Text) :
      (putAll (entries.map fun entry => (entry.1, mk (some (readBack entry.2)) [])) .empty).getKey key =
        (entries.lookup key).map fun node => mk (some (readBack node)) [] := by
    have absent : (empty : ConfigNode δ).getKey key = none := rfl
    have keys : ((entries.map fun entry => (entry.1, (mk (some (readBack entry.2)) [] : ConfigNode δ))).map
        Prod.fst).Nodup := by
      rw [List.map_map]
      exact distinct
    rw [getKey_putAll, absent, Option.or_none, ← lookup_perm keys (List.reverse_perm _).symm,
      lookup_map fun node => mk (some (readBack node)) []]
  constructor
  · rintro same ⟨key, node⟩ among
    have here := same key
    rw [found, getKey_entry flat order, (lookup_eq_some_iff_mem distinct).mpr among] at here
    exact Option.some.inj here
  · intro each key
    rw [found, getKey_entry flat order]
    cases there : entries.lookup key with
    | none => rfl
    | some node => exact congrArg some (each (key, node) ((lookup_eq_some_iff_mem distinct).mp there))

theorem readBack_eq_iff {node : ConfigNode δ} (scalar : Scalar node) :
    some (readBack node) = node.value ↔ ∀ i, node.value ≠ some (.int64 i) := by
  cases scalar with
  | null => simp [readBack, value]
  | bool b => simp [readBack, value]
  | int64 i => simp [readBack, value]
  | string s => simp [readBack, value]

/-! ## Special characters do not come back -/

theorem count_valueText {node : ConfigNode δ} (scalar : Scalar node) :
    (Config.valueText showDouble node).count '\\' = (node.asString.getD []).count '\\' := by
  cases scalar with
  | null => rfl
  | bool b => cases b <;> rfl
  | int64 i => rfl
  | string s =>
      change ('"' :: (s ++ ['"'])).count '\\' = s.count '\\'
      rw [List.count_cons_of_ne (by decide), List.count_append]
      rfl

theorem count_entryText {entry : Text × ConfigNode δ} (scalar : Scalar entry.2) :
    (Config.entryText showDouble entry).count '\\' = (content entry).count '\\' := by
  have value := count_valueText showDouble scalar
  have whole : Config.entryText showDouble entry =
      [' ', ' ', '"'] ++ (entry.1 ++ (['"', ':', ' '] ++ Config.valueText showDouble entry.2)) := rfl
  have front : [' ', ' ', '"'].count '\\' = 0 := rfl
  have between : ['"', ':', ' '].count '\\' = 0 := rfl
  simp only [whole, content, List.count_append, front, between, value]
  omega

theorem count_intercalate {c : Char} {sep : Text} (clean : sep.count c = 0) (texts : List Text) :
    (sep.intercalate texts).count c = (texts.map (List.count c)).sum := by
  induction texts with
  | nil => rfl
  | cons text texts ih =>
      cases texts with
      | nil => simp
      | cons next texts =>
          rw [List.intercalate_cons_cons, List.count_append, List.count_append, clean, ih]
          rfl

theorem count_toJson {entries : List (Text × ConfigNode δ)} (scalar : ∀ entry ∈ entries, Scalar entry.2) (pretty : Bool) :
    (Config.toJson showDouble entries pretty).count '\\' = (entries.map fun entry => (content entry).count '\\').sum := by
  have each : entries.map (List.count '\\' ∘ Config.entryText showDouble) =
      entries.map fun entry => (content entry).count '\\' :=
    List.map_congr_left fun entry among => count_entryText showDouble (scalar entry among)
  have behind : ['\n', '}'].count '\\' = 0 := rfl
  rw [Config.toJson, List.count_cons_of_ne (by decide), List.count_cons_of_ne (by decide), List.count_append, behind,
    count_intercalate (by rfl), List.map_map, each]
  rfl

theorem toJson_closed (entries : List (Text × ConfigNode δ)) (pretty : Bool) :
    (Stream.good (Config.toJson showDouble entries pretty)).Closed := by
  have whole : Config.toJson showDouble entries pretty =
      '{' :: '\n' :: ([',', '\n'].intercalate (entries.map (Config.entryText showDouble)) ++ ['\n']) ++ ['}'] := by
    simp [Config.toJson]
  rw [Stream.Closed, whole, List.getLast?_concat]
  decide

theorem worthAt_entry {root : ConfigNode δ} {entry : Text × ConfigNode δ} (scalar : Scalar entry.2)
    (found : root.getKey entry.1 = some entry.2) : worthAt root entry.1 = price (content entry) := by
  obtain ⟨key, node⟩ := entry
  have joined : price (content (key, node)) = price key + price (node.asString.getD []) := by
    simp only [price, content, List.count_append]
    omega
  rw [joined, worthAt, found]
  cases scalar with
  | null | bool | int64 | string => rfl

theorem worth_of_sameEntries {root other : ConfigNode δ} (same : SameEntries other root) (keys : Finset Text) :
    worth keys other = worth keys root := by
  apply Finset.sum_congr rfl
  intro key _
  rw [worthAt, worthAt, same key]

/-- Every quote and every backslash is paid for with a backslash more than the text has. -/
theorem ordinary_of_roundTrips {root : ConfigNode δ} (flat : FlatRoot root) {entries : List (Text × ConfigNode δ)}
    (order : entries.Perm root.children) {pretty : Bool} (trips : RoundTrips n₀ c₀ stod showDouble entries pretty root) :
    ∀ entry ∈ entries, Ordinary (content entry) := by
  obtain ⟨other, ⟨fuel, loads⟩, same⟩ := trips
  have scalar : ∀ entry ∈ entries, Scalar entry.2 := fun entry among => flat.scalar entry (order.mem_iff.mp among)
  have distinct : (entries.map Prod.fst).Nodup := (order.map Prod.fst).nodup_iff.mpr flat.distinct
  let keys := (entries.map Prod.fst).toFinset
  have loaded := loads fuel (Nat.le_refl fuel)
  have bound := parseJsonStream_worth n₀ c₀ stod (toJson_closed showDouble entries pretty) loaded keys
  have each : (entries.map Prod.fst).map (worthAt root) = entries.map fun entry => price (content entry) := by
    rw [List.map_map]
    apply List.map_congr_left
    rintro ⟨key, node⟩ among
    apply worthAt_entry (scalar _ among)
    rw [getKey_entry flat order]
    exact (lookup_eq_some_iff_mem distinct).mpr among
  let specials (s : Text) : Nat := s.count '"' + s.count '\\'
  have split : (fun entry : Text × ConfigNode δ => price (content entry)) =
      fun entry => (content entry).count '\\' + specials (content entry) := by
    funext entry
    simp only [price, specials]
    omega
  rw [worth_of_sameEntries same, worth, List.sum_toFinset _ distinct, each, split, List.sum_map_add,
    count_toJson showDouble scalar] at bound
  have nothing : (entries.map fun entry => specials (content entry)).sum = 0 := by omega
  intro entry among c member
  have none := List.sum_eq_zero_iff_forall_eq_nat.mp nothing _ (List.mem_map_of_mem among)
  have positive : 0 < (content entry).count c := List.count_pos_iff.mpr member
  constructor
  · rintro rfl
    simp only [specials] at none
    omega
  · rintro rfl
    simp only [specials] at none
    omega

theorem roundTrips_iff {root : ConfigNode δ} (flat : FlatRoot root) {entries : List (Text × ConfigNode δ)}
    (order : entries.Perm root.children) (pretty : Bool) :
    RoundTrips n₀ c₀ stod showDouble entries pretty root ↔ ∀ entry ∈ entries, Kept entry := by
  have scalar : ∀ entry ∈ entries, Scalar entry.2 := fun entry among => flat.scalar entry (order.mem_iff.mp among)
  constructor
  · intro trips entry among
    have ordinary := ordinary_of_roundTrips n₀ c₀ stod showDouble flat order trips
    obtain ⟨other, loads, same⟩ := trips
    rw [loads.unique n₀ c₀ stod (loads_toJson n₀ c₀ stod showDouble scalar ordinary pretty), sameEntries_iff flat order]
      at same
    have parts := ordinary_append.mp (ordinary entry among)
    refine ⟨parts.1, ?_, (readBack_eq_iff (scalar entry among)).mp (same entry among)⟩
    intro s found
    have string : entry.2.asString = some s := by
      rw [asString, found]
    rw [string] at parts
    exact parts.2
  · intro kept
    have ordinary : ∀ entry ∈ entries, Ordinary (content entry) :=
      fun entry among => (kept entry among).content (scalar entry among)
    refine ⟨_, loads_toJson n₀ c₀ stod showDouble scalar ordinary pretty, ?_⟩
    rw [sameEntries_iff flat order]
    exact fun entry among => (readBack_eq_iff (scalar entry among)).mpr (kept entry among).other

theorem to_json_round_trips_iff {text : Text} {members : List (Text × Json)} (flat : Flat members)
    (rendered : RendersText text (.object members)) :
    ∃ root, Loads n₀ c₀ stod text root ∧ ∀ entries pretty, entries.Perm root.children →
      (RoundTrips n₀ c₀ stod showDouble entries pretty root ↔ ∀ entry ∈ root.children, Kept entry) := by
  refine ⟨_, loads_flat n₀ c₀ stod flat rendered, fun entries pretty order => ?_⟩
  rw [roundTrips_iff n₀ c₀ stod showDouble (flatRoot_members flat) order]
  exact forall_congr' fun entry => imp_congr_left order.mem_iff

/-- `{"a":"x", "b":true,"c" :null}` -/
def mixedText : Text :=
  ['{', '"', 'a', '"', ':', '"', 'x', '"', ',', ' ', '"', 'b', '"', ':', 't', 'r', 'u', 'e', ',', '"', 'c', '"', ' ',
    ':', 'n', 'u', 'l', 'l', '}']

def mixedMembers : List (Text × Json) := [(['a'], .string ['x']), (['b'], .bool true), (['c'], .null)]

theorem mixedText_renders : RendersText mixedText (.object mixedMembers) := by
  have blank : Blank [' '] := by simp [Blank, isSpace]
  have nothing : Blank [] := by simp [Blank]
  have key {c : Char} (plain : c ≠ '"' ∧ c ≠ '\\') : Spells [c] [c] := .plain plain .nil
  have first : RendersMember ['"', 'a', '"', ':', '"', 'x', '"'] (['a'], .string ['x']) :=
    @RendersMember.mk [] [] [] [] _ _ _ _ nothing nothing nothing nothing (key (by decide)) (.string (key (by decide)))
  have second : RendersMember [' ', '"', 'b', '"', ':', 't', 'r', 'u', 'e'] (['b'], .bool true) :=
    @RendersMember.mk [' '] [] [] [] _ _ _ _ blank nothing nothing nothing (key (by decide)) .trueToken
  have third : RendersMember ['"', 'c', '"', ' ', ':', 'n', 'u', 'l', 'l'] (['c'], .null) :=
    @RendersMember.mk [] [' '] [] [] _ _ _ _ nothing blank nothing nothing (key (by decide)) .null
  exact ⟨[], mixedText, [], nothing, nothing, .object (.more first (.more second (.last third))), rfl⟩

theorem mixedMembers_flat : Flat mixedMembers := by
  have string : Json.Fitting (.string ['x']) := .string ['x']
  have bool : Json.Fitting (.bool true) := .bool true
  simp [Flat, mixedMembers, string, bool, Json.Fitting.null]

theorem to_json_round_trips_mixed :
    ∃ root : ConfigNode Unit, Loads '\x00' '\x00' (fun _ => .ok ()) mixedText root ∧
      root.children.map (fun entry => (entry.1, entry.2.value)) =
        [(['a'], some (.string ['x'])), (['b'], some (.bool true)), (['c'], some .null)] ∧
      RoundTrips '\x00' '\x00' (fun _ => .ok ()) (fun _ => []) root.children true root ∧
      RoundTrips '\x00' '\x00' (fun _ => .ok ()) (fun _ => []) root.children.reverse false root := by
  obtain ⟨root, loads, trips⟩ :=
    to_json_round_trips_iff '\x00' '\x00' (fun _ => .ok ()) (fun _ : Unit => []) mixedMembers_flat mixedText_renders
  obtain rfl := loads.unique '\x00' '\x00' _ (loads_flat '\x00' '\x00' _ mixedMembers_flat mixedText_renders)
  have kept : ∀ entry ∈ (Json.addAll mixedMembers .empty : ConfigNode Unit).children, Kept entry := by
    have children : (Json.addAll mixedMembers .empty : ConfigNode Unit).children =
        [(['a'], mk (some (.string ['x'])) []), (['b'], mk (some (.bool true)) []), (['c'], mk (some .null) [])] := rfl
    rw [children]
    simp only [List.forall_mem_cons]
    refine ⟨⟨by decide, ?_, by simp [value]⟩, ⟨by decide, by simp [value], by simp [value]⟩,
      ⟨by decide, by simp [value], by simp [value]⟩, by simp⟩
    rintro s same
    cases same
    decide
  exact ⟨_, loads, rfl, (trips _ true (.refl _)).mpr kept, (trips _ false (List.reverse_perm _)).mpr kept⟩

/-! ## One member -/

def oneText (value : Text) : Text := '{' :: '"' :: 'a' :: '"' :: ':' :: (value ++ ['}'])

theorem oneText_renders {value : Text} {tree : Json} (rendered : Renders value tree) :
    RendersText (oneText value) (.object [(['a'], tree)]) := by
  have nothing : Blank [] := by simp [Blank]
  have key : Spells ['a'] ['a'] := .plain (by decide) .nil
  have member := RendersMember.mk nothing nothing nothing nothing key rendered
  exact ⟨[], _, [], nothing, nothing, .object (.last member), by simp [oneText]⟩

theorem one_flat {tree : Json} (fitting : tree.Fitting) (leaf : ∀ below, tree ≠ .object below) :
    Flat [(['a'], tree)] := by
  intro m among
  obtain rfl := List.mem_singleton.mp among
  exact ⟨fitting, leaf⟩

theorem not_roundTrips_one {value : Text} {tree : Json} (fitting : tree.Fitting) (leaf : ∀ below, tree ≠ .object below)
    (rendered : Renders value tree) (lost : ¬ Kept (['a'], (tree.node : ConfigNode Unit))) :
    ∃ root : ConfigNode Unit, Loads '\x00' '\x00' (fun _ => .ok ()) (oneText value) root ∧
      ¬ RoundTrips '\x00' '\x00' (fun _ => .ok ()) (fun _ => []) root.children true root := by
  have flat := one_flat fitting leaf
  refine ⟨_, loads_flat '\x00' '\x00' _ flat (oneText_renders rendered), fun trips => lost ?_⟩
  exact (roundTrips_iff _ _ _ _ (flatRoot_members flat) (.refl _) true).mp trips _ (List.mem_singleton.mpr rfl)

/-- `{"a":1}` comes back as `null`; the quote in `{"a":"\""}` is not escaped. -/
theorem to_json_loses_values :
    (RendersText (oneText ['1']) (.object [(['a'], .int 1)]) ∧
      ∃ root : ConfigNode Unit, Loads '\x00' '\x00' (fun _ => .ok ()) (oneText ['1']) root ∧
        ¬ RoundTrips '\x00' '\x00' (fun _ => .ok ()) (fun _ => []) root.children true root) ∧
    RendersText (oneText ['"', '\\', '"', '"']) (.object [(['a'], .string ['"'])]) ∧
      ∃ root : ConfigNode Unit, Loads '\x00' '\x00' (fun _ => .ok ()) (oneText ['"', '\\', '"', '"']) root ∧
        ¬ RoundTrips '\x00' '\x00' (fun _ => .ok ()) (fun _ => []) root.children true root := by
  have one : Renders ['1'] (.int 1) := .int (.plain (by simp) (by simp))
  have quote : Renders ['"', '\\', '"', '"'] (.string ['"']) := .string (.escape (by decide) .nil)
  refine ⟨⟨oneText_renders one, ?_⟩, oneText_renders quote, ?_⟩
  · apply not_roundTrips_one (.int (by decide)) (fun below same => by cases same) one
    exact fun kept => kept.other 1 rfl
  · apply not_roundTrips_one (.string _) (fun below same => by cases same) quote
    exact fun kept => (kept.string ['"'] rfl '"' List.mem_cons_self).1 rfl

end ServerFramework.Base
