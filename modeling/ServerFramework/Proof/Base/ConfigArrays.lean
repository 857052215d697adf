import ServerFramework.Base.ConfigFile
import ServerFramework.Proof.Base.ConfigWalk

namespace ServerFramework.Base
open Library JsonParser ConfigNode

/-! ## Arrays and their texts -/

inductive Items
  | ints (is : List Int)
  | strings (ss : List Text)

def Items.values {δ : Type} : Items → List (ConfigValue δ)
  | ints is => is.map .int64
  | strings ss => ss.map .string

inductive Elements {α : Type} (element : Text → α → Prop) : Text → List α → Prop
  | last {b₁ b₂ text : Text} {a : α} (space₁ : Blank b₁) (space₂ : Blank b₂) (rendered : element text a) :
      Elements element (b₁ ++ (text ++ b₂)) [a]
  | more {b₁ b₂ text rest : Text} {a : α} {as : List α} (space₁ : Blank b₁) (space₂ : Blank b₂)
      (rendered : element text a) (others : Elements element rest as) :
      Elements element (b₁ ++ (text ++ (b₂ ++ ',' :: rest))) (a :: as)

inductive Quoted : Text → Text → Prop
  | mk {text s : Text} (spelled : Spells text s) : Quoted ('"' :: (text ++ ['"'])) s

inductive RendersArray : Text → Items → Prop
  | empty {blank : Text} {items : Items} (space : Blank blank) (none : items = .ints [] ∨ items = .strings []) :
      RendersArray ('[' :: (blank ++ [']'])) items
  | ints {text : Text} {is : List Int} (elements : Elements Numeral text is) :
      RendersArray ('[' :: (text ++ [']'])) (.ints is)
  | strings {text : Text} {ss : List Text} (elements : Elements Quoted text ss) :
      RendersArray ('[' :: (text ++ [']'])) (.strings ss)

/-! ## The array loop on strings -/

variable (n₀ : Char) {δ : Type} (c₀ : Char) (stod : Text → Except StdException δ)

theorem arrayBody_string {b₁ b₂ text s : Text} (space₁ : Blank b₁) (space₂ : Blank b₂) (spelled : Spells text s)
    (c : Char) (arr : List Text) {d : Char} (rest : Text) (visible : isSpace d = false) :
    arrayBody n₀ (c, .good (b₁ ++ ('"' :: (text ++ ['"']) ++ (b₂ ++ d :: rest))), arr) =
      if d = ']' then .inr (.good (d :: rest), arr ++ [s])
      else if d ≠ ',' then .inr (.good (d :: rest), arr ++ [s])
      else .inl (d, .good rest, arr ++ [s]) := by
  have opens : skipWs (.good (b₁ ++ ('"' :: (text ++ ['"']) ++ (b₂ ++ d :: rest)))) =
      .good ('"' :: (text ++ '"' :: (b₂ ++ d :: rest))) := by
    have shape : b₁ ++ ('"' :: (text ++ ['"']) ++ (b₂ ++ d :: rest)) =
        b₁ ++ '"' :: (text ++ '"' :: (b₂ ++ d :: rest)) := by simp
    rw [shape, skipWs_blank space₁ _ rfl]
  rw [arrayBody_element n₀ c arr opens (by decide), skipString_spells spelled, skipWs_blank space₂ _ visible,
    stringBody_spells n₀ spelled]
  rfl

theorem arrayLoop_strings {text : Text} {ss : List Text} (elements : Elements Quoted text ss) (c : Char)
    (arr : List Text) (rest : Text) :
    loop (arrayBody n₀) ss.length (c, .good (text ++ ']' :: rest), arr) = some (.good (']' :: rest), arr ++ ss) := by
  induction elements generalizing c arr with
  | last space₁ space₂ rendered =>
      obtain ⟨spelled⟩ := rendered
      rw [List.append_assoc, List.append_assoc, List.length_singleton, loop,
        arrayBody_string n₀ space₁ space₂ spelled c arr rest rfl]
      rfl
  | @more b₁ b₂ text tail s ss space₁ space₂ rendered others ih =>
      obtain ⟨spelled⟩ := rendered
      have shape : ∀ quoted : Text, b₁ ++ (quoted ++ (b₂ ++ ',' :: tail)) ++ ']' :: rest =
          b₁ ++ (quoted ++ (b₂ ++ ',' :: (tail ++ ']' :: rest))) := by simp
      rw [shape, List.length_cons, loop, arrayBody_string n₀ space₁ space₂ spelled c arr _ rfl]
      change loop (arrayBody n₀) ss.length (',', .good (tail ++ ']' :: rest), arr ++ [s]) = _
      rw [ih, List.append_assoc]
      rfl

theorem parseValue_strings {is : Stream} {text rest : Text} {ss : List Text} (elements : Elements Quoted text ss)
    (front : skipWs is = .good ('[' :: (text ++ ']' :: rest))) {fuel : Nat} (enough : ss.length ≤ fuel) :
    parseValue n₀ c₀ stod fuel is = some (arrayValue stod ss, .good (']' :: rest)) := by
  have opens : (skipWs is).get c₀ = ('[', .good (text ++ ']' :: rest)) := by rw [front, Stream.get_good]
  rw [parseValue_array n₀ c₀ stod opens, loop_mono (arrayLoop_strings n₀ elements '[' [] rest) enough]
  rfl

theorem parseValue_empty {is : Stream} {blank rest : Text} (space : Blank blank)
    (front : skipWs is = .good ('[' :: (blank ++ ']' :: rest))) {fuel : Nat} (enough : 1 ≤ fuel) :
    parseValue n₀ c₀ stod fuel is = some (.ok (.int64s []), .good rest) := by
  have opens : (skipWs is).get c₀ = ('[', .good (blank ++ ']' :: rest)) := by rw [front, Stream.get_good]
  have once : loop (arrayBody n₀) 1 ('[', .good (blank ++ ']' :: rest), []) = some (.good rest, []) := by
    rw [loop, arrayBody, skipWs_blank space rest rfl]
    rfl
  rw [parseValue_array n₀ c₀ stod opens, loop_mono once enough]
  rfl

/-! ## A place for a value in a document -/

/-- An object with a place for a value, in it or in an object below. -/
inductive Slot (δ : Type)
  | here (before : List (Text × Tree δ)) (key : Text) (behind : List (Text × Tree δ))
  | nested (before : List (Text × Tree δ)) (key : Text) (slot : Slot δ) (behind : List (Text × Tree δ))

namespace Slot

def fill (v : ConfigValue δ) : Slot δ → List (Text × Tree δ)
  | here before key behind => before ++ (key, .leaf v) :: behind
  | nested before key slot behind => before ++ (key, .object (slot.fill v)) :: behind

def path : Slot δ → List Text
  | here _ key _ => [key]
  | nested _ key slot _ => key :: slot.path

def graft (slot : Slot δ) (v : ConfigValue δ) : ConfigNode δ := (Tree.walk (slot.fill v) {}).root

end Slot

section

inductive Ahead : Text → List (Text × Tree δ) → Prop
  | none : Ahead [] []
  | some {text : Text} {members : List (Text × Tree δ)} (written : WritesMembers stod text members) :
      Ahead (text ++ [',']) members

inductive Behind : Text → List (Text × Tree δ) → Prop
  | none : Behind [] []
  | some {text : Text} {members : List (Text × Tree δ)} (written : WritesMembers stod text members) :
      Behind (',' :: text) members

/-- The text between the braces, with `value` in the slot's place. -/
inductive WritesSlot (value : Text) : Text → Slot δ → Prop
  | here {b₁ b₂ b₃ b₄ spelling front back key : Text} {before behind : List (Text × Tree δ)}
      (ahead : Ahead stod front before) (space₁ : Blank b₁) (space₂ : Blank b₂) (space₃ : Blank b₃) (space₄ : Blank b₄)
      (spelled : Spells spelling key) (rest : Behind stod back behind) :
      WritesSlot value
        (front ++ (b₁ ++ '"' :: (spelling ++ '"' :: (b₂ ++ ':' :: (b₃ ++ (value ++ b₄)))) ++ back))
        (.here before key behind)
  | nested {b₁ b₂ b₃ b₄ spelling front back key text : Text} {before behind : List (Text × Tree δ)} {slot : Slot δ}
      (ahead : Ahead stod front before) (space₁ : Blank b₁) (space₂ : Blank b₂) (space₃ : Blank b₃) (space₄ : Blank b₄)
      (spelled : Spells spelling key) (inner : WritesSlot value text slot) (rest : Behind stod back behind) :
      WritesSlot value
        (front ++ (b₁ ++ '"' :: (spelling ++ '"' :: (b₂ ++ ':' :: (b₃ ++ ('{' :: (text ++ ['}']) ++ b₄)))) ++ back))
        (.nested before key slot behind)

def WritesIn (value text : Text) (slot : Slot δ) : Prop :=
  ∃ before inside behind, Blank before ∧ Blank behind ∧ WritesSlot stod value inside slot ∧
    text = before ++ ('{' :: (inside ++ ['}']) ++ behind)

end

/-! ## Documents with a value in a slot -/

namespace Loader

variable {ι : Type} (fuels : ι → Nat)

theorem readsInside_ahead {front text : Text} {before : List (Text × Tree δ)} {f : Place δ → Place δ}
    (ahead : Ahead stod front before) (reads : ReadsInside n₀ c₀ stod fuels text f) :
    ReadsInside n₀ c₀ stod fuels (front ++ text) fun place => f (Tree.walk before place) := by
  cases ahead with
  | none => exact reads
  | some written =>
      rw [List.append_assoc]
      exact readsInside_comma n₀ c₀ stod fuels (readsInside_of_writes n₀ c₀ stod fuels written) reads

theorem readsInside_behind {text back : Text} {behind : List (Text × Tree δ)} {f : Place δ → Place δ}
    (rest : Behind stod back behind) (reads : ReadsInside n₀ c₀ stod fuels text f) :
    ReadsInside n₀ c₀ stod fuels (text ++ back) fun place => Tree.walk behind (f place) := by
  cases rest with
  | none =>
      rw [List.append_nil]
      exact reads
  | some written =>
      exact readsInside_comma n₀ c₀ stod fuels reads (readsInside_of_writes n₀ c₀ stod fuels written)

theorem readsInside_slot {value text : Text} {v : ConfigValue δ} {slot : Slot δ}
    (visible : ∃ c body, value = c :: body ∧ isSpace c = false) (reads : ReadsValue n₀ c₀ stod fuels value v id)
    (written : WritesSlot stod value text slot) : ReadsInside n₀ c₀ stod fuels text (Tree.walk (slot.fill v)) := by
  induction written with
  | here ahead space₁ space₂ space₃ space₄ spelled rest =>
      have member := readsInside_member n₀ c₀ stod fuels space₁ space₂ space₃ space₄ spelled visible reads
      have whole := readsInside_ahead n₀ c₀ stod fuels ahead (readsInside_behind n₀ c₀ stod fuels rest member)
      rw [Slot.fill, funext (Tree.walk_append _ _)]
      exact whole
  | nested ahead space₁ space₂ space₃ space₄ spelled inner rest ih =>
      have object := readsValue_object n₀ c₀ stod fuels ih
      have member := readsInside_member n₀ c₀ stod fuels space₁ space₂ space₃ space₄ spelled ⟨_, _, rfl, rfl⟩ object
      have whole := readsInside_ahead n₀ c₀ stod fuels ahead (readsInside_behind n₀ c₀ stod fuels rest member)
      rw [Slot.fill, funext (Tree.walk_append _ _)]
      exact whole

end Loader

theorem loads_slot {least : Nat} {value text : Text} {v : ConfigValue δ} {slot : Slot δ}
    (visible : ∃ c body, value = c :: body ∧ isSpace c = false)
    (reads : Loader.ReadsValue n₀ c₀ stod (fun fuel : { fuel // least ≤ fuel } => fuel.1) value v id)
    (written : WritesIn stod value text slot) : Loads n₀ c₀ stod text (slot.graft v) := by
  obtain ⟨before, inside, behind, space, space', written, rfl⟩ := written
  have inside := Loader.readsInside_slot n₀ c₀ stod _ visible reads written
  exact loads_inside n₀ c₀ stod inside space space'

theorem loads_scalar {value text : Text} {v : ConfigValue δ} {slot : Slot δ} (scalar : Writes stod value (.leaf v))
    (written : WritesIn stod value text slot) : Loads n₀ c₀ stod text (slot.graft v) :=
  loads_slot n₀ c₀ stod (scalar.start stod)
    (Loader.readsValue_of_writes n₀ c₀ stod (fun fuel : { fuel // 0 ≤ fuel } => fuel.1) scalar) written

/-! ## Where the value ends up -/

inductive Tree.Keyed : Tree δ → Prop
  | leaf (v : ConfigValue δ) : Keyed (.leaf v)
  | object {members : List (Text × Tree δ)} (keys : ∀ m ∈ members, m.1 ≠ [] ∨ ∀ below, m.2 ≠ Tree.object below)
      (distinct : (members.map Prod.fst).Nodup) (below : ∀ m ∈ members, Keyed m.2) : Keyed (.object members)

theorem Tree.Keyed.named {tree : Tree δ} (keyed : tree.Keyed) : tree.Named := by
  induction keyed with
  | leaf v => exact .leaf v
  | object keys distinct below ih => exact .object keys ih

theorem Tree.Keyed.place {before behind : List (Text × Tree δ)} {key : Text} {tree : Tree δ}
    (keyed : (Tree.object (before ++ (key, tree) :: behind)).Keyed) : key ∉ behind.map Prod.fst ∧ tree.Keyed := by
  cases keyed with
  | object keys distinct below =>
      rw [List.map_append, List.map_cons] at distinct
      exact ⟨(List.nodup_cons.mp (List.nodup_append.mp distinct).2.1).1, below (key, tree) (by simp)⟩

theorem Tree.getKey_place (before : List (Text × Tree δ)) {behind : List (Text × Tree δ)} {key : Text} (tree : Tree δ)
    (last : key ∉ behind.map Prod.fst) (parent : ConfigNode δ) :
    (putAll (nodes (before ++ (key, tree) :: behind)) parent).getKey key = some tree.node := by
  have absent : (behind.map fun m => (m.1, m.2.node)).reverse.lookup key = none := by
    rw [List.lookup_eq_none_iff]
    intro entry member
    apply bne_iff_ne.mpr
    rintro rfl
    obtain ⟨m, among, rfl⟩ := List.mem_map.mp (List.mem_reverse.mp member)
    exact last (List.mem_map_of_mem among)
  rw [nodes_eq, List.map_append, putAll_append, List.map_cons, putAll, getKey_putAll, absent, getKey_putChild, if_pos rfl]
  rfl

theorem Tree.getKey_elsewhere (before behind : List (Text × Tree δ)) {key other : Text} (tree tree' : Tree δ)
    (different : other ≠ key) (parent : ConfigNode δ) :
    (putAll (nodes (before ++ (key, tree) :: behind)) parent).getKey other =
      (putAll (nodes (before ++ (key, tree') :: behind)) parent).getKey other := by
  simp only [nodes_eq, List.map_append, List.map_cons, putAll_append, putAll, getKey_putAll (behind.map _),
    getKey_putChild, if_neg different]

namespace Slot

theorem graft_eq {slot : Slot δ} {v : ConfigValue δ} (keyed : (Tree.object (slot.fill v)).Keyed) :
    slot.graft v = putAll (Tree.nodes (slot.fill v)) .empty :=
  keyed.named.walk_acts.root

theorem follow_path {slot : Slot δ} {v : ConfigValue δ} (keyed : (Tree.object (slot.fill v)).Keyed)
    (parent : ConfigNode δ) : (putAll (Tree.nodes (slot.fill v)) parent).follow slot.path = some (mk (some v) []) := by
  induction slot generalizing parent with
  | here before key behind =>
      rw [path, follow, fill, Tree.getKey_place before _ keyed.place.1]
      rfl
  | nested before key slot behind ih =>
      rw [path, follow, fill, Tree.getKey_place before _ keyed.place.1]
      exact ih keyed.place.2 _

theorem follow_elsewhere {slot : Slot δ} {v : ConfigValue δ} (keyed : (Tree.object (slot.fill v)).Keyed)
    (w : ConfigValue δ) (parent : ConfigNode δ) {path : List Text} (other : path ≠ slot.path) :
    ((putAll (Tree.nodes (slot.fill v)) parent).follow path).map value =
      ((putAll (Tree.nodes (slot.fill w)) parent).follow path).map value := by
  induction slot generalizing parent path with
  | here before key behind =>
      cases path with
      | nil => simp only [follow, Option.map_some, value_putAll]
      | cons front path =>
          rw [follow, follow, fill, fill]
          by_cases same : front = key
          · subst same
            rw [Tree.getKey_place before _ keyed.place.1, Tree.getKey_place before _ keyed.place.1]
            cases path with
            | nil => exact absurd rfl other
            | cons next path => rfl
          · rw [Tree.getKey_elsewhere before behind _ (.leaf w) same]
  | nested before key slot behind ih =>
      cases path with
      | nil => simp only [follow, Option.map_some, value_putAll]
      | cons front path =>
          rw [follow, follow, fill, fill]
          by_cases same : front = key
          · subst same
            rw [Tree.getKey_place before _ keyed.place.1, Tree.getKey_place before _ keyed.place.1]
            apply ih keyed.place.2
            rintro rfl
            exact other rfl
          · rw [Tree.getKey_elsewhere before behind _ (.object (slot.fill w)) same]

end Slot

/-! ## Which arrays are read faithfully -/

theorem mapM_ok {α β ε : Type} {f : α → Except ε β} {as : List α} (each : ∀ a ∈ as, (f a).isOk = true) :
    ∃ bs, as.mapM f = .ok bs := by
  induction as with
  | nil => exact ⟨[], rfl⟩
  | cons a as ih =>
      obtain ⟨bs, rest⟩ := ih fun b member => each b (List.mem_cons_of_mem _ member)
      have first := each a List.mem_cons_self
      cases found : f a with
      | error e =>
          rw [found] at first
          cases first
      | ok b =>
          rw [List.mapM_cons, found, rest]
          exact ⟨b :: bs, rfl⟩

theorem stoll_of_stoi {s : Text} (read : (stoi s).isOk = true) : (stoll s).isOk = true := by
  rw [stoi, stringToInt] at read
  rw [stoll, stringToInt]
  cases value : strtol s with
  | none =>
      rw [value] at read
      cases read
  | some v =>
      rw [value] at read
      dsimp only at read ⊢
      split at read
      · rename_i small
        have fits : Fits 64 v := by
          unfold Fits at small ⊢
          omega
        rw [if_pos fits]
        rfl
      · cases read

theorem arrayValue_cases (arr : List Text) :
    ((∀ s ∈ arr, (stoi s).isOk = true) ∧ ∃ is, arrayValue stod arr = .ok (.int64s is)) ∨
    ((∀ s ∈ arr, (stod s).isOk = true) ∧ ∃ ds, arrayValue stod arr = .ok (.doubles ds)) ∨
    ((∃ s ∈ arr, (stoi s).isOk = false) ∧ (∃ s ∈ arr, (stod s).isOk = false) ∧
      arrayValue stod arr = .ok (.strings arr)) := by
  unfold arrayValue
  split
  · rename_i all
    have each : ∀ s ∈ arr, (stoi s).isOk = true := List.all_eq_true.mp all
    obtain ⟨is, read⟩ := mapM_ok fun s member => stoll_of_stoi (each s member)
    rw [read]
    exact .inl ⟨each, is, rfl⟩
  · rename_i some_no_int
    split
    · rename_i all
      have each : ∀ s ∈ arr, (stod s).isOk = true := List.all_eq_true.mp all
      obtain ⟨ds, read⟩ := mapM_ok each
      rw [read]
      exact .inr (.inl ⟨each, ds, rfl⟩)
    · rename_i some_no_double
      refine .inr (.inr ⟨?_, ?_, rfl⟩)
      · simpa using some_no_int
      · simpa using some_no_double

def Items.Safe : Items → Prop
  | ints is => is = []
  | strings ss => ss = [] ∨ (∃ s ∈ ss, (stoi s).isOk = false) ∧ ∃ s ∈ ss, (stod s).isOk = false

theorem Elements.nonempty {α : Type} {element : Text → α → Prop} {text : Text} {as : List α}
    (elements : Elements element text as) : as ≠ [] := by
  cases elements with
  | last space₁ space₂ rendered => exact List.cons_ne_nil _ _
  | more space₁ space₂ rendered others => exact List.cons_ne_nil _ _

theorem readsValue_strings {text : Text} {ss : List Text} (elements : Elements Quoted text ss) {v : ConfigValue δ}
    (guessed : arrayValue stod ss = .ok v) :
    Loader.ReadsValue n₀ c₀ stod (fun fuel : { fuel // ss.length ≤ fuel } => fuel.1) ('[' :: (text ++ [']'])) v id := by
  intro is d rest place delimiter front
  have opens : skipWs is = .good ('[' :: (text ++ ']' :: d :: rest)) := by simpa using front
  refine ⟨.good (']' :: d :: rest), fun fuel => ?_, ?_⟩
  · rw [parseValue_strings n₀ c₀ stod elements opens fuel.2, guessed]
  · exact Goes.one fun fuel => Loader.step_other n₀ c₀ stod fuel.1 rfl (by decide)

theorem readsValue_empty {blank : Text} (space : Blank blank) :
    Loader.ReadsValue n₀ c₀ stod (fun fuel : { fuel // 1 ≤ fuel } => fuel.1) ('[' :: (blank ++ [']'])) (.int64s [])
      id := by
  intro is d rest place delimiter front
  have opens : skipWs is = .good ('[' :: (blank ++ ']' :: d :: rest)) := by simpa using front
  exact ⟨.good (d :: rest), fun fuel => parseValue_empty n₀ c₀ stod space opens fuel.2, .refl⟩

theorem readsValue_array {text : Text} {items : Items} (rendered : RendersArray text items) (safe : items.Safe stod) :
    ∃ v : ConfigValue δ, (mk (some v) []).asArray = some items.values ∧ ∃ least,
      Loader.ReadsValue n₀ c₀ stod (fun fuel : { fuel // least ≤ fuel } => fuel.1) text v id := by
  cases rendered with
  | empty space none =>
      refine ⟨.int64s [], ?_, 1, readsValue_empty n₀ c₀ stod space⟩
      rcases none with rfl | rfl
      · rfl
      · rfl
  | ints elements => exact absurd safe elements.nonempty
  | @strings text ss elements =>
      obtain ⟨no_int, no_double⟩ := safe.resolve_left elements.nonempty
      have guessed : arrayValue stod ss = .ok (.strings ss) := by
        rcases arrayValue_cases stod ss with ⟨all, -⟩ | ⟨all, -⟩ | ⟨-, -, guessed⟩
        · obtain ⟨s, member, fails⟩ := no_int
          rw [all s member] at fails
          cases fails
        · obtain ⟨s, member, fails⟩ := no_double
          rw [all s member] at fails
          cases fails
        · exact guessed
      exact ⟨.strings ss, rfl, ss.length, readsValue_strings n₀ c₀ stod elements guessed⟩

theorem RendersArray.start {text : Text} {items : Items} (rendered : RendersArray text items) :
    ∃ c body, text = c :: body ∧ isSpace c = false := by
  cases rendered with
  | empty space none => exact ⟨_, _, rfl, rfl⟩
  | ints elements => exact ⟨_, _, rfl, rfl⟩
  | strings elements => exact ⟨_, _, rfl, rfl⟩

/-! ## A document that tells -/

/-- `{"a":`, the value, `,"b":0}` -/
def probeText (value : Text) : Text :=
  '{' :: '"' :: 'a' :: '"' :: ':' :: (value ++ [',', '"', 'b', '"', ':', '0', '}'])

def probe : Slot δ := .here [] ['a'] [(['b'], .leaf (.int64 0))]

theorem probe_written (value : Text) : WritesIn stod value (probeText value) probe := by
  have nothing : Blank [] := by simp [Blank]
  have zero : Writes stod ['0'] (.leaf (.int64 0)) :=
    .token (by decide) (by simp [isDelimiter, isSpace]) (tokenValue_numeral stod (.plain (by simp) (by simp)) (by decide))
  have a_key : Spells ['a'] ['a'] := .plain (by decide) .nil
  have b_key : Spells ['b'] ['b'] := .plain (by decide) .nil
  have last := @WritesMember.mk _ stod [] [] [] [] _ _ _ _ nothing nothing nothing nothing b_key zero
  have slot := @WritesSlot.here _ stod value [] [] [] [] _ _ _ _ _ _ .none nothing nothing nothing nothing a_key
    (.some (.last last))
  exact ⟨[], _, [], nothing, nothing, slot, by simp [probeText]⟩

theorem probe_graft (v : ConfigValue δ) :
    probe.graft v = setKey ['b'] (.int64 0) (setKey ['a'] v .empty) := by
  have named : (Tree.object (probe.fill v)).Named := Tree.named_of_leaves (by simp [probe, Slot.fill])
  exact named.walk_acts.root

theorem Blank.ordinary {blank : Text} (space : Blank blank) : Ordinary blank := by
  intro c member
  have is_space := space c member
  constructor
  · rintro rfl
    cases is_space
  · rintro rfl
    cases is_space

theorem Numeral.ordinary {text : Text} {i : Int} (numeral : Numeral text i) : Ordinary text := by
  have digits : ∀ c : Char, c.isDigit → c ≠ '"' ∧ c ≠ '\\' := by
    intro c digit
    constructor
    · rintro rfl
      cases digit
    · rintro rfl
      cases digit
  cases numeral with
  | plain nonempty decimal => exact fun c member => digits c (decimal c member)
  | minus nonempty decimal =>
      exact List.forall_mem_cons.mpr ⟨by decide, fun c member => digits c (decimal c member)⟩

theorem Elements.ordinary {text : Text} {is : List Int} (elements : Elements Numeral text is) : Ordinary text := by
  induction elements with
  | last space₁ space₂ rendered =>
      exact ordinary_append.mpr ⟨space₁.ordinary, ordinary_append.mpr ⟨rendered.ordinary, space₂.ordinary⟩⟩
  | more space₁ space₂ rendered others ih =>
      have behind : Ordinary (',' :: _) := List.forall_mem_cons.mpr ⟨by decide, ih⟩
      have after := ordinary_append.mpr ⟨space₂.ordinary, behind⟩
      exact ordinary_append.mpr ⟨space₁.ordinary, ordinary_append.mpr ⟨rendered.ordinary, after⟩⟩

theorem Elements.start {text : Text} {is : List Int} (elements : Elements Numeral text is) :
    ∃ blank c tail, Blank blank ∧ text = blank ++ c :: tail ∧ isSpace c = false ∧ c ≠ ']' := by
  have visible : ∀ {text : Text} {i : Int}, Numeral text i →
      ∃ c tail, text = c :: tail ∧ isSpace c = false ∧ c ≠ ']' := by
    intro text i numeral
    obtain ⟨c, tail, rfl, start, -⟩ := numeral.shape
    refine ⟨c, tail, rfl, (numeral_start start).1, ?_⟩
    rintro rfl
    rcases start with start | start
    · cases start
    · cases start
  cases elements with
  | @last b₁ b₂ text i space₁ space₂ rendered =>
      obtain ⟨c, tail, rfl, shown, other⟩ := visible rendered
      exact ⟨b₁, c, tail ++ b₂, space₁, by simp, shown, other⟩
  | @more b₁ b₂ text rest i is space₁ space₂ rendered others =>
      obtain ⟨c, tail, rfl, shown, other⟩ := visible rendered
      exact ⟨b₁, c, tail ++ (b₂ ++ ',' :: rest), space₁, by simp, shown, other⟩

/-- The first digit is taken for a quote, and what follows is read up to a quote behind the array. -/
theorem parseValue_ints {stream : Stream} {text more : Text} {is : List Int} (elements : Elements Numeral text is)
    (front : skipWs stream = .good ('[' :: (text ++ ']' :: ',' :: '"' :: 'b' :: more))) :
    ∃ v, ∀ fuel ≥ 1, parseValue n₀ c₀ stod fuel stream = some (.ok v, .good ('b' :: more)) := by
  have ordinary := elements.ordinary
  obtain ⟨blank, c, tail, space, rfl, visible, other⟩ := elements.start
  have opens : (skipWs stream).get c₀ =
      ('[', .good (blank ++ c :: tail ++ ']' :: ',' :: '"' :: 'b' :: more)) := by rw [front, Stream.get_good]
  have element : skipWs (.good (blank ++ c :: tail ++ ']' :: ',' :: '"' :: 'b' :: more)) =
      .good (c :: (tail ++ [']', ','] ++ '"' :: 'b' :: more)) := by
    rw [List.append_assoc, List.cons_append, skipWs_blank space _ visible]
    simp
  have spelled : Spells (tail ++ [']', ',']) (tail ++ [']', ',']) := by
    have rest := (List.forall_mem_cons.mp (ordinary_append.mp ordinary).2).2
    exact spells_ordinary (ordinary_append.mpr ⟨rest, by decide⟩)
  have round : loop (arrayBody n₀) 1 ('[', .good (blank ++ c :: tail ++ ']' :: ',' :: '"' :: 'b' :: more), []) =
      some (.good ('b' :: more), [tail ++ [']', ',']]) := by
    rw [loop, arrayBody_element n₀ '[' [] element other, skipString_spells spelled, stringBody_spells n₀ spelled]
    rfl
  obtain ⟨v, guessed⟩ : ∃ v, arrayValue stod [tail ++ [']', ',']] = .ok v := by
    rcases arrayValue_cases stod [tail ++ [']', ',']] with ⟨-, is, read⟩ | ⟨-, ds, read⟩ | ⟨-, -, read⟩
    · exact ⟨_, read⟩
    · exact ⟨_, read⟩
    · exact ⟨_, read⟩
  refine ⟨v, fun fuel enough => ?_⟩
  rw [parseValue_array n₀ c₀ stod opens, loop_mono round enough]
  change some (arrayValue stod [tail ++ [']', ',']], _) = _
  rw [guessed]

theorem loads_probe_ints {text : Text} {is : List Int} (elements : Elements Numeral text is) :
    ∃ v, Loads n₀ c₀ stod (probeText ('[' :: (text ++ [']']))) (setKey ['a'] v .empty) := by
  let value : Text := '[' :: (text ++ [']']) ++ [',', '"', 'b', '"', ':', '0', '}']
  have colon : skipWs (skipString ('a' :: '"' :: ':' :: value)) = .good (':' :: value) := rfl
  have front : skipWs (Loader.valueStart value) =
      .good ('[' :: (text ++ ']' :: ',' :: '"' :: 'b' :: ['"', ':', '0', '}'])) := by
    rw [Loader.valueStart, Loader.putback_get]
    simp [value, skipWs, skipSpaces, isSpace]
  obtain ⟨v, parsed⟩ := parseValue_ints n₀ c₀ stod elements front
  let fuels : { fuel // 1 ≤ fuel } → Nat := fun fuel => fuel.1
  let reached : Place δ := ({} : Place δ).setMember ['a'] v
  have opened := goes_open n₀ c₀ stod fuels ('"' :: 'a' :: '"' :: ':' :: value)
  have member_read : Goes (fun i => Loader.step n₀ c₀ stod (fuels i))
      (({} : Place δ).on (.good ('"' :: 'a' :: '"' :: ':' :: value))) (reached.on (.good ['b', '"', ':', '0', '}'])) := by
    apply Goes.one
    intro i
    rw [Loader.step_quote n₀ c₀ stod (fuels i) rfl, Loader.readMember_colon n₀ c₀ stod (fuels i) rfl colon,
      Loader.readValue, parsed (fuels i) i.2]
    rfl
  have letter : Goes (fun i => Loader.step n₀ c₀ stod (fuels i)) (reached.on (.good ['b', '"', ':', '0', '}']))
      (reached.on (.good ['"', ':', '0', '}'])) :=
    Goes.one fun i => Loader.step_other n₀ c₀ stod (fuels i) rfl (by decide)
  have lost : Goes (fun i => Loader.step n₀ c₀ stod (fuels i)) (reached.on (.good ['"', ':', '0', '}']))
      (reached.on .failed) := by
    apply Goes.one
    intro i
    rw [Loader.step_quote n₀ c₀ stod (fuels i) rfl, Loader.readMember_other n₀ c₀ stod (fuels i) rfl (by decide)]
    rfl
  have loaded := loads_of_goes n₀ c₀ stod (.inr rfl) (((opened.trans member_read).trans letter).trans lost)
  exact ⟨v, loaded⟩

/-- The value in the slot is the list, and the rest of the document does to the loader what it does anyway. -/
def ReadsArray (doc : Text) (slot : Slot δ) (items : Items) : Prop :=
  ∃ v : ConfigValue δ, (mk (some v) []).asArray = some items.values ∧ Loads n₀ c₀ stod doc (slot.graft v)

theorem probe_injective {v w : ConfigValue δ} (same : probe.graft v = probe.graft w) : v = w := by
  rw [probe_graft, probe_graft] at same
  have place := congrArg (fun root => getKey root ['a']) same
  simp [setKey] at place
  exact place

theorem safe_of_reads {text : Text} {items : Items} (rendered : RendersArray text items)
    (reads : ReadsArray n₀ c₀ stod (probeText text) probe items) : items.Safe stod := by
  obtain ⟨v, listed, loaded⟩ := reads
  cases rendered with
  | empty space none =>
      rcases none with rfl | rfl
      · exact rfl
      · exact .inl rfl
  | ints elements =>
      obtain ⟨w, lost⟩ := loads_probe_ints n₀ c₀ stod elements
      have same := loaded.unique n₀ c₀ stod lost
      rw [probe_graft] at same
      have absent : (empty : ConfigNode δ).getKey ['b'] = none := rfl
      have second := congrArg (fun root => getKey root ['b']) same
      simp [setKey, absent] at second
  | @strings text ss elements =>
      have loads : ∀ w, arrayValue stod ss = .ok w → v = w := fun w guessed =>
        probe_injective (loaded.unique n₀ c₀ stod (loads_slot n₀ c₀ stod ⟨_, _, rfl, rfl⟩
          (readsValue_strings n₀ c₀ stod elements guessed) (probe_written stod _)))
      rcases arrayValue_cases stod ss with ⟨-, is, guessed⟩ | ⟨-, ds, guessed⟩ | ⟨no_int, no_double, -⟩
      · rw [loads _ guessed] at listed
        cases ss with
        | nil => exact .inl rfl
        | cons s ss => cases is <;> simp [asArray, value, Items.values] at listed
      · rw [loads _ guessed] at listed
        cases ss with
        | nil => exact .inl rfl
        | cons s ss => cases ds <;> simp [asArray, value, Items.values] at listed
      · exact .inr ⟨no_int, no_double⟩

theorem json_array_reads_iff (text : Text) (items : Items) (rendered : RendersArray text items) :
    ((∀ (slot : Slot δ) (doc : Text), WritesIn stod text doc slot → ReadsArray n₀ c₀ stod doc slot items) ↔
      items.Safe stod) ∧
    (∀ (slot : Slot δ) (doc value : Text) (v : ConfigValue δ), Writes stod value (.leaf v) →
      WritesIn stod value doc slot → Loads n₀ c₀ stod doc (slot.graft v)) ∧
    ∀ (slot : Slot δ) (v w : ConfigValue δ), (∀ u, (Tree.object (slot.fill u)).Keyed) →
      (slot.graft v).follow slot.path = some (mk (some v) []) ∧
      ∀ path ≠ slot.path, ((slot.graft v).follow path).map value = ((slot.graft w).follow path).map value := by
  refine ⟨⟨?_, ?_⟩, ?_, ?_⟩
  · intro reads
    exact safe_of_reads n₀ c₀ stod rendered (reads probe _ (probe_written stod text))
  · intro safe slot doc placed
    obtain ⟨v, listed, least, reads⟩ := readsValue_array n₀ c₀ stod rendered safe
    exact ⟨v, listed, loads_slot n₀ c₀ stod rendered.start reads placed⟩
  · intro slot doc value v scalar placed
    exact loads_scalar n₀ c₀ stod scalar placed
  · intro slot v w keyed
    rw [Slot.graft_eq (keyed v), Slot.graft_eq (keyed w)]
    exact ⟨Slot.follow_path (keyed v) .empty, fun path other => Slot.follow_elsewhere (keyed v) w .empty other⟩

def stodInteger (s : Text) : Except StdException Unit := (stoi s).map fun _ => ()

/-- `["x", "1"]` -/
def mixedArray : Text := ['[', '"', 'x', '"', ',', ' ', '"', '1', '"', ']']

theorem mixedArray_renders : RendersArray mixedArray (.strings [['x'], ['1']]) := by
  have nothing : Blank [] := by simp [Blank]
  have blank : Blank [' '] := by simp [Blank, isSpace]
  have one : Quoted ['"', '1', '"'] ['1'] := .mk (.plain (by decide) .nil)
  have x : Quoted ['"', 'x', '"'] ['x'] := .mk (.plain (by decide) .nil)
  exact .strings (@Elements.more _ _ [] [] _ _ _ _ nothing nothing x (@Elements.last _ _ [' '] [] _ _ blank nothing one))

theorem json_array_reads_mixed :
    ReadsArray '\x00' '\x00' stodInteger (probeText mixedArray) probe (.strings [['x'], ['1']]) :=
  (json_array_reads_iff '\x00' '\x00' stodInteger mixedArray _ mixedArray_renders).1.mpr
    (.inr ⟨⟨['x'], by decide, by decide⟩, ['x'], by decide, by decide⟩) probe _ (probe_written stodInteger mixedArray)

/-- `[1,2]` is read as one string and swallows the next key; `["1"]` is read as an integer. -/
theorem json_array_misread :
    (RendersArray ['[', '1', ',', '2', ']'] (.ints [1, 2]) ∧
      ¬ ReadsArray '\x00' '\x00' stodInteger (probeText ['[', '1', ',', '2', ']']) probe (.ints [1, 2])) ∧
    RendersArray ['[', '"', '1', '"', ']'] (.strings [['1']]) ∧
      ¬ ReadsArray '\x00' '\x00' stodInteger (probeText ['[', '"', '1', '"', ']']) probe (.strings [['1']]) := by
  have nothing : Blank [] := by simp [Blank]
  have one : Numeral ['1'] 1 := .plain (by simp) (by simp)
  have two : Numeral ['2'] 2 := .plain (by simp) (by simp)
  have quoted : Quoted ['"', '1', '"'] ['1'] := .mk (.plain (by decide) .nil)
  have ints : RendersArray ['[', '1', ',', '2', ']'] (.ints [1, 2]) :=
    .ints (@Elements.more _ _ [] [] _ _ _ _ nothing nothing one (@Elements.last _ _ [] [] _ _ nothing nothing two))
  have strings : RendersArray ['[', '"', '1', '"', ']'] (.strings [['1']]) :=
    .strings (@Elements.last _ _ [] [] _ _ nothing nothing quoted)
  refine ⟨⟨ints, fun reads => ?_⟩, strings, fun reads => ?_⟩
  · exact absurd (safe_of_reads '\x00' '\x00' stodInteger ints reads) (List.cons_ne_nil _ _)
  · rcases safe_of_reads '\x00' '\x00' stodInteger strings reads with none | ⟨⟨s, member, fails⟩, -⟩
    · cases none
    · rw [List.mem_singleton.mp member] at fails
      cases fails

end ServerFramework.Base
