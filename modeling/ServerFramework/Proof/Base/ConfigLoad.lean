import ServerFramework.Proof.Base.ConfigWalk

namespace ServerFramework.Base
open Library JsonParser

/-! ## Trees of literals as trees of values -/

namespace Json
open ConfigNode

variable {δ : Type}

mutual

def tree : Json → Tree δ
  | null => .leaf .null
  | bool b => .leaf (.bool b)
  | int i => .leaf (.int64 i)
  | string s => .leaf (.string s)
  | object members => .object (trees members)

def trees : List (Text × Json) → List (Text × Tree δ)
  | [] => []
  | (key, value) :: members => (key, value.tree) :: trees members

end

mutual

theorem node_tree : ∀ tree : Json, (tree.tree : Tree δ).node = tree.node
  | null => rfl
  | bool _ => rfl
  | int _ => rfl
  | string _ => rfl
  | object members => putAll_trees members _

theorem putAll_trees : ∀ (members : List (Text × Json)) (parent : ConfigNode δ),
    putAll (Tree.nodes (trees members)) parent = addAll members parent
  | [], _ => rfl
  | (key, value) :: members, parent => by
      rw [trees, Tree.nodes, putAll, addAll, node_tree value, putAll_trees members]

end

theorem mem_trees {members : List (Text × Json)} {m : Text × Tree δ} (among : m ∈ trees members) :
    ∃ value, (m.1, value) ∈ members ∧ value.tree = m.2 := by
  induction members with
  | nil => cases among
  | cons member members ih =>
      rcases List.mem_cons.mp among with rfl | later
      · exact ⟨member.2, List.mem_cons_self, rfl⟩
      · obtain ⟨value, inside, same⟩ := ih later
        exact ⟨value, List.mem_cons_of_mem _ inside, same⟩

inductive Fitting : Json → Prop
  | null : Fitting null
  | bool (b : Bool) : Fitting (bool b)
  | int {i : Int} (fits : Fits 64 i) : Fitting (int i)
  | string (s : Text) : Fitting (string s)
  | object {members : List (Text × Json)} (below : ∀ m ∈ members, Fitting m.2) : Fitting (object members)

theorem Fitting.members {members : List (Text × Json)} (fitting : (Json.object members).Fitting) :
    ∀ m ∈ members, m.2.Fitting := by
  cases fitting with
  | object below => exact below

theorem Proper.fitting {tree : Json} (proper : tree.Proper) : tree.Fitting := by
  induction proper with
  | null => exact .null
  | bool b => exact .bool b
  | int fits => exact .int fits
  | string s => exact .string s
  | object keys distinct proper ih => exact .object ih

theorem Proper.named {tree : Json} (proper : tree.Proper) : (tree.tree : Tree δ).Named := by
  induction proper with
  | null => exact .leaf .null
  | bool b => exact .leaf (.bool b)
  | @int i fits => exact .leaf (.int64 i)
  | string s => exact .leaf (.string s)
  | object keys distinct proper ih =>
      refine .object ?_ ?_
      · intro m among
        obtain ⟨value, inside, -⟩ := mem_trees among
        exact .inl (keys _ inside).1
      · intro m among
        obtain ⟨value, inside, same⟩ := mem_trees among
        rw [← same]
        exact ih _ inside

end Json

variable (n₀ : Char) {δ : Type} (c₀ : Char) (stod : Text → Except StdException δ)

mutual

theorem Renders.writes {text : Text} {tree : Json} (fitting : tree.Fitting) :
    Renders text tree → Writes stod text tree.tree
  | .null => .token (by decide) (by simp [isDelimiter, isSpace]) rfl
  | .trueToken => .token (by decide) (by simp [isDelimiter, isSpace]) rfl
  | .falseToken => .token (by decide) (by simp [isDelimiter, isSpace]) rfl
  | .int numeral => by
      cases fitting with
      | int fits =>
          have value := tokenValue_numeral stod numeral fits
          obtain ⟨c, tail, rfl, start, decimal⟩ := numeral.shape
          have first := numeral_start start
          refine .token (by simp_all) ?_ value
          intro d member
          rcases List.mem_cons.mp member with rfl | behind
          · rcases start with rfl | digit
            · rfl
            · exact (digit_plain digit).2.1
          · exact (digit_plain (decimal d behind)).2.1
  | .string spelled => .string spelled
  | .empty space => .empty space
  | .object rendered => .object (rendered.writes fitting.members)

theorem RendersMember.writes {text : Text} {member : Text × Json} (fitting : member.2.Fitting) :
    RendersMember text member → WritesMember stod text (member.1, member.2.tree)
  | .mk space₁ space₂ space₃ space₄ spelled rendered =>
      .mk space₁ space₂ space₃ space₄ spelled (rendered.writes fitting)

theorem RendersMembers.writes {text : Text} {members : List (Text × Json)} (fitting : ∀ m ∈ members, m.2.Fitting) :
    RendersMembers text members → WritesMembers stod text (Json.trees members)
  | .last rendered => .last (rendered.writes (fitting _ (by simp)))
  | .more rendered others =>
      .more (rendered.writes (fitting _ (by simp))) (others.writes fun m member => fitting m (by simp [member]))

end

theorem Renders.inside {ι : Type} (fuels : ι → Nat) {text : Text} {members : List (Text × Json)}
    (fitting : (Json.object members).Fitting) (rendered : Renders text (.object members)) :
    ∃ inside, text = '{' :: (inside ++ ['}']) ∧
      Loader.ReadsInside n₀ c₀ stod fuels inside (Tree.walk (Json.trees members)) := by
  cases rendered with
  | empty space => exact ⟨_, rfl, Loader.readsInside_blank n₀ c₀ stod fuels space⟩
  | object rendered =>
      exact ⟨_, rfl, Loader.readsInside_of_writes n₀ c₀ stod fuels (rendered.writes stod fitting.members)⟩

theorem loads_members {text : Text} {members : List (Text × Json)} (fitting : (Json.object members).Fitting)
    (named : ((Json.object members).tree : Tree δ).Named) (rendered : RendersText text (.object members)) :
    Loads n₀ c₀ stod text (Json.addAll members .empty) := by
  obtain ⟨before, body, behind, space, space', rendered, rfl⟩ := rendered
  obtain ⟨inside, rfl, reads⟩ := rendered.inside n₀ c₀ stod (fun fuel : { fuel // 0 ≤ fuel } => fuel.1) fitting
  have loaded := loads_inside n₀ c₀ stod reads space space'
  rw [named.walk_acts.root, Json.putAll_trees] at loaded
  exact loaded

theorem loads_object {text : Text} {members : List (Text × Json)} (proper : (Json.object members).Proper)
    (rendered : RendersText text (.object members)) :
    ∃ n, ∀ fuel ≥ n, Config.parseJsonStream n₀ c₀ stod fuel text =
      some ⟨Json.addAll members .empty, none⟩ := by
  have loaded := loads_members n₀ c₀ stod proper.fitting proper.named rendered
  exact loaded

/-! ## `get` -/

def joined (path : List Text) : Text := ['.'].intercalate path

theorem takeWhile_key {key : Text} (plain : '.' ∉ key) (rest : Text) :
    (key ++ rest).takeWhile (· ≠ '.') = key ++ rest.takeWhile (· ≠ '.') := by
  apply List.takeWhile_append_of_pos
  intro c member
  have other : c ≠ '.' := by
    rintro rfl
    exact plain member
  simpa using other

theorem getFrom_last {key : Text} (nonempty : key ≠ []) (plain : '.' ∉ key) (cur : ConfigNode δ) (n : Nat) :
    Config.getFrom cur (n + 1) key = cur.getKey key := by
  have whole := takeWhile_key plain []
  simp only [List.append_nil, List.takeWhile_nil] at whole
  rw [Config.getFrom, whole]
  · simp
  · exact nonempty

theorem getFrom_next {key : Text} (plain : '.' ∉ key) (cur : ConfigNode δ) (n : Nat)
    (rest : Text) : Config.getFrom cur (n + 1) (key ++ '.' :: rest) =
      (cur.getKey key).bind fun child => Config.getFrom child n rest := by
  have front := takeWhile_key plain ('.' :: rest)
  rw [Config.getFrom, front]
  · simp
  · simp

theorem getFrom_joined {path : List Text} (keys : ∀ key ∈ path, key ≠ [] ∧ '.' ∉ key) (cur : ConfigNode δ) {n : Nat}
    (enough : (joined path).length ≤ n) : Config.getFrom cur n (joined path) = cur.follow path := by
  induction path generalizing cur n with
  | nil => cases n <;> rfl
  | cons key path ih =>
      obtain ⟨nonempty, plain⟩ := keys key (by simp)
      have size := List.length_pos_of_ne_nil nonempty
      cases path with
      | nil =>
          have only : joined [key] = key := by simp [joined]
          rw [only] at enough ⊢
          obtain ⟨n, rfl⟩ : ∃ m, n = m + 1 := ⟨n - 1, by omega⟩
          rw [getFrom_last nonempty plain]
          simp [ConfigNode.follow]
      | cons next path =>
          have split : joined (key :: next :: path) = key ++ '.' :: joined (next :: path) := by
            simp [joined, List.intercalate]
          rw [split] at enough ⊢
          rw [List.length_append, List.length_cons] at enough
          obtain ⟨n, rfl⟩ : ∃ m, n = m + 1 := ⟨n - 1, by omega⟩
          have later := fun child => ih (fun key member => keys key (by simp [member])) child
            (n := n) (by omega)
          rw [getFrom_next plain, ConfigNode.follow]
          simp only [later]

theorem follow_root {members : List (Text × Json)} (proper : (Json.object members).Proper) {path : List Text}
    (nonempty : path ≠ []) : (Json.addAll members .empty : ConfigNode δ).follow path =
      ((Json.object members).find path).map Json.node := by
  rw [← Json.follow_node proper, Json.node]
  cases path with
  | nil => exact absurd rfl nonempty
  | cons key path =>
      cases proper with
      | object keys distinct below =>
          rw [Json.follow_member distinct (fun _ => rfl), Json.follow_member distinct (fun _ => rfl)]

theorem parseJsonStream_loads {text : Text} {members : List (Text × Json)} (proper : (Json.object members).Proper)
    (rendered : RendersText text (.object members)) :
    ∃ root : ConfigNode δ,
      (∃ n, ∀ fuel ≥ n, Config.parseJsonStream n₀ c₀ stod fuel text = some ⟨root, none⟩) ∧
      ∀ path ≠ [], (∀ key ∈ path, key ≠ [] ∧ '.' ∉ key) →
        ((Config.get root (joined path)).isSome ↔ ((Json.object members).find path).isSome) ∧
        ∀ tree v, (Json.object members).find path = some tree → tree.leaf δ = some v →
          ∃ node, Config.get root (joined path) = some node ∧ node.value = some v := by
  refine ⟨Json.addAll members .empty, loads_object n₀ c₀ stod proper rendered, ?_⟩
  intro path nonempty keys
  have found : Config.get (Json.addAll members .empty : ConfigNode δ) (joined path) =
      ((Json.object members).find path).map Json.node := by
    rw [Config.get, getFrom_joined keys _ (Nat.le_refl _), follow_root proper nonempty]
  rw [found]
  refine ⟨by rw [Option.isSome_map], ?_⟩
  intro tree v here leaf
  exact ⟨tree.node, by rw [here]; rfl, Json.value_node leaf⟩

/-- ` {"a": {"b\n" :-5} } ` -/
def nestedText : Text :=
  [' ', '{', '"', 'a', '"', ':', ' ', '{', '"', 'b', '\\', 'n', '"', ' ', ':', '-', '5', '}', ' ', '}', ' ']

def nestedMembers : List (Text × Json) := [(['a'], .object [(['b', '\n'], .int (-5))])]

theorem nestedMembers_proper : (Json.object nestedMembers).Proper := by
  refine .object (by decide) (by decide) ?_
  intro outer member
  obtain rfl := List.mem_singleton.mp member
  refine .object (by decide) (by decide) ?_
  intro inner member
  obtain rfl := List.mem_singleton.mp member
  exact .int (by decide)

theorem nestedText_renders : RendersText nestedText (.object nestedMembers) := by
  have blank : Blank [' '] := by simp [Blank, isSpace]
  have nothing : Blank [] := by simp [Blank]
  have five : Numeral ['-', '5'] (-5) := .minus (by simp) (by simp)
  have inner_key : Spells ['b', '\\', 'n'] ['b', '\n'] := .plain (by decide) (.escape (by decide) .nil)
  have inner : RendersMember ['"', 'b', '\\', 'n', '"', ' ', ':', '-', '5'] (['b', '\n'], .int (-5)) :=
    @RendersMember.mk [] [' '] [] [] _ _ _ _ nothing blank nothing nothing inner_key (.int five)
  have outer_key : Spells ['a'] ['a'] := .plain (by decide) .nil
  have outer := @RendersMember.mk [] [] [' '] [' '] _ _ _ _ nothing nothing blank blank outer_key
    (.object (.last inner))
  exact ⟨[' '], _, [' '], blank, blank, .object (.last outer), rfl⟩

theorem parseJsonStream_loads_nested :
    ∃ root : ConfigNode Unit,
      (∃ n, ∀ fuel ≥ n, Config.parseJsonStream '\x00' '\x00' (fun _ => .ok ()) fuel nestedText = some ⟨root, none⟩) ∧
      ∃ node, Config.get root ['a', '.', 'b', '\n'] = some node ∧ node.value = some (.int64 (-5)) := by
  obtain ⟨root, loaded, found⟩ := parseJsonStream_loads '\x00' '\x00' (fun _ => .ok ()) nestedMembers_proper
    nestedText_renders
  refine ⟨root, loaded, ?_⟩
  exact (found [['a'], ['b', '\n']] (by decide) (by decide)).2 _ _ rfl rfl

end ServerFramework.Base
