import ServerFramework.Proof.Base.ConfigText

namespace ServerFramework.Base
open Library JsonParser

/-! ## Where the loader stands -/

structure Place (δ : Type) where
  root : ConfigNode δ := .empty
  stack : List (List Text) := [[]]
  lastKey : Text := []

namespace Place

variable {δ : Type}

def on (place : Place δ) (is : Stream) : Loader δ := ⟨is, place.root, place.stack, place.lastKey⟩

def back (place : Place δ) : List Text := place.stack.headD []

def setMember (key : Text) (v : ConfigValue δ) (place : Place δ) : Place δ :=
  { place with root := place.root.modify (.setKey key v) place.back, lastKey := key }

def openBrace (place : Place δ) : Place δ :=
  let target := place.back ++ [place.lastKey]
  if place.lastKey ≠ [] ∧ (place.root.follow target).isSome then
    { place with stack := target :: place.stack, lastKey := [] }
  else { place with lastKey := [] }

def closeBrace (place : Place δ) : Place δ :=
  { place with stack := if place.stack.length > 1 then place.stack.tail else place.stack, lastKey := [] }

theorem on_openBrace (place : Place δ) (is : Stream) : (place.on is).openBrace = place.openBrace.on is := by
  rw [openBrace, Loader.openBrace]
  change (if place.lastKey ≠ [] ∧ (place.root.follow (place.back ++ [place.lastKey])).isSome then _ else _) = _
  split
  · rfl
  · rfl

theorem on_closeBrace (place : Place δ) (is : Stream) : (place.on is).closeBrace = place.closeBrace.on is := rfl

end Place

/-! ## Trees of values -/

/-- A document when its scalars have been read. -/
inductive Tree (δ : Type)
  | leaf (v : ConfigValue δ)
  | object (members : List (Text × Tree δ))

namespace Tree
open ConfigNode

variable {δ : Type}

mutual

def node : Tree δ → ConfigNode δ
  | leaf v => mk (some v) []
  | object members => putAll (nodes members) (mk (some .null) [])

def nodes : List (Text × Tree δ) → List (Text × ConfigNode δ)
  | [] => []
  | (key, tree) :: members => (key, tree.node) :: nodes members

end

def first : Tree δ → ConfigValue δ
  | leaf v => v
  | object _ => .null

mutual

/-- What the loader does behind a key with this value. -/
def inside : Tree δ → Place δ → Place δ
  | leaf _, place => place
  | object members, place => (walk members place.openBrace).closeBrace

def walk : List (Text × Tree δ) → Place δ → Place δ
  | [], place => place
  | (key, tree) :: members, place => walk members (tree.inside (place.setMember key tree.first))

end

theorem walk_append (members others : List (Text × Tree δ)) (place : Place δ) :
    walk (members ++ others) place = walk others (walk members place) := by
  induction members generalizing place with
  | nil => rfl
  | cons member members ih => exact ih _

theorem nodes_eq (members : List (Text × Tree δ)) : nodes members = members.map fun m => (m.1, m.2.node) := by
  induction members with
  | nil => rfl
  | cons member members ih => exact congrArg (_ :: ·) ih

/-- The loader does not go into an object under an empty key. -/
inductive Named : Tree δ → Prop
  | leaf (v : ConfigValue δ) : Named (leaf v)
  | object {members : List (Text × Tree δ)} (keys : ∀ m ∈ members, m.1 ≠ [] ∨ ∀ below, m.2 ≠ object below)
      (below : ∀ m ∈ members, Named m.2) : Named (object members)

end Tree

/-! ## Named trees -/

open ConfigNode

variable {δ : Type}

/-- The loader stands where it stood, and `g` is what has become of the node there. -/
def Acts (f : Place δ → Place δ) (g : ConfigNode δ → ConfigNode δ) : Prop :=
  ∀ (root : ConfigNode δ) (path : List Text) (stack : List (List Text)) (last : Text), (root.follow path).isSome →
    ∃ last', f ⟨root, path :: stack, last⟩ = ⟨root.modify g path, path :: stack, last'⟩

theorem Acts.refl : Acts (fun place : Place δ => place) id := fun root path _ last _ =>
  ⟨last, by rw [modify_id]⟩

theorem Acts.trans {f f' : Place δ → Place δ} {g g' : ConfigNode δ → ConfigNode δ} (first : Acts f g)
    (second : Acts f' g') : Acts (fun place => f' (f place)) (g' ∘ g) := by
  intro root path stack last reachable
  obtain ⟨between, here⟩ := first root path stack last reachable
  have still : ((root.modify g path).follow path).isSome := by
    rw [follow_modify, Option.isSome_map]
    exact reachable
  obtain ⟨last', there⟩ := second _ path stack between still
  refine ⟨last', ?_⟩
  dsimp only
  rw [here, there, modify_modify]

theorem Acts.setMember (key : Text) (v : ConfigValue δ) : Acts (Place.setMember key v) (setKey key v) :=
  fun _ _ _ _ _ => ⟨key, rfl⟩

theorem Acts.object {f : Place δ → Place δ} {g : ConfigNode δ → ConfigNode δ} (inside : Acts f g) {key : Text}
    (nonempty : key ≠ []) :
    Acts (fun place => (f (place.setMember key .null).openBrace).closeBrace) (putChild key (g (mk (some .null) []))) := by
  intro root path stack last reachable
  let entered : ConfigNode δ := root.modify (setKey key .null) path
  have child : (entered.follow (path ++ [key])).isSome := by
    obtain ⟨parent, found⟩ := Option.isSome_iff_exists.mp reachable
    rw [follow_snoc, follow_modify, found]
    simp [setKey]
  have opened : ((⟨root, path :: stack, last⟩ : Place δ).setMember key .null).openBrace =
      ⟨entered, (path ++ [key]) :: path :: stack, []⟩ := if_pos ⟨nonempty, child⟩
  obtain ⟨last', walked⟩ := inside entered (path ++ [key]) (path :: stack) [] child
  have built : entered.modify g (path ++ [key]) = root.modify (putChild key (g (mk (some .null) []))) path :=
    modify_child g path key _ root
  refine ⟨[], ?_⟩
  dsimp only
  rw [opened, walked, built]
  rfl

theorem Acts.root {f : Place δ → Place δ} {g : ConfigNode δ → ConfigNode δ} (acts : Acts f g) :
    (f {}).root = g .empty := by
  obtain ⟨last, same⟩ := acts .empty [] [] [] rfl
  change f {} = _ at same
  rw [same]
  rfl

namespace Tree

theorem walk_acts {members : List (Text × Tree δ)}
    (each : ∀ m ∈ members, Acts (fun place => m.2.inside (place.setMember m.1 m.2.first)) (putChild m.1 m.2.node)) :
    Acts (walk members) (putAll (nodes members)) := by
  induction members with
  | nil => exact .refl
  | cons member members ih =>
      have first := each member List.mem_cons_self
      have rest := ih fun m among => each m (List.mem_cons_of_mem _ among)
      obtain ⟨key, tree⟩ := member
      exact first.trans rest

theorem named_of_leaves {members : List (Text × Tree δ)} (leaves : ∀ m ∈ members, ∃ v, m.2 = leaf v) :
    (object members).Named := by
  refine .object ?_ ?_
  · intro m among
    obtain ⟨v, same⟩ := leaves m among
    rw [same]
    exact .inr fun below other => by cases other
  · intro m among
    obtain ⟨v, same⟩ := leaves m among
    rw [same]
    exact .leaf v

theorem Named.acts {tree : Tree δ} (named : tree.Named) {key : Text}
    (keyed : key ≠ [] ∨ ∀ below, tree ≠ Tree.object below) :
    Acts (fun place => tree.inside (place.setMember key tree.first)) (putChild key tree.node) := by
  induction named generalizing key with
  | leaf v => exact .setMember key v
  | @object members keys below ih =>
      have nonempty : key ≠ [] := keyed.resolve_right fun other => other members rfl
      exact (walk_acts fun m member => ih m member (keys m member)).object nonempty

theorem Named.walk_acts {members : List (Text × Tree δ)} (named : (Tree.object members).Named) :
    Acts (walk members) (putAll (nodes members)) := by
  cases named with
  | object keys below => exact Tree.walk_acts fun m member => (below m member).acts (keys m member)

end Tree

/-! ## Texts of trees -/

section

variable (stod : Text → Except StdException δ)

mutual

inductive Writes : Text → Tree δ → Prop
  | token {c : Char} {text : Text} {v : ConfigValue δ} (start : c ≠ '"' ∧ c ≠ '[' ∧ c ≠ '{')
      (whole : ∀ d ∈ c :: text, isDelimiter d = false) (value : tokenValue stod (c :: text) = .ok v) :
      Writes (c :: text) (.leaf v)
  | string {text s : Text} (spelled : Spells text s) : Writes ('"' :: (text ++ ['"'])) (.leaf (.string s))
  | empty {blank : Text} (space : Blank blank) : Writes ('{' :: (blank ++ ['}'])) (.object [])
  | object {text : Text} {members : List (Text × Tree δ)} (written : WritesMembers text members) :
      Writes ('{' :: (text ++ ['}'])) (.object members)

inductive WritesMember : Text → Text × Tree δ → Prop
  | mk {b₁ b₂ b₃ b₄ spelling text key : Text} {tree : Tree δ} (space₁ : Blank b₁) (space₂ : Blank b₂)
      (space₃ : Blank b₃) (space₄ : Blank b₄) (spelled : Spells spelling key) (written : Writes text tree) :
      WritesMember (b₁ ++ '"' :: (spelling ++ '"' :: (b₂ ++ ':' :: (b₃ ++ (text ++ b₄))))) (key, tree)

inductive WritesMembers : Text → List (Text × Tree δ) → Prop
  | last {text : Text} {member : Text × Tree δ} (written : WritesMember text member) : WritesMembers text [member]
  | more {text rest : Text} {member : Text × Tree δ} {members : List (Text × Tree δ)}
      (written : WritesMember text member) (others : WritesMembers rest members) :
      WritesMembers (text ++ ',' :: rest) (member :: members)

end

theorem isSpace_of_delimiter {c : Char} (inside : isDelimiter c = false) : isSpace c = false := by
  simp only [isDelimiter, Bool.or_eq_false_iff] at inside
  exact inside.1.1.1

theorem Writes.start {text : Text} {tree : Tree δ} (written : Writes stod text tree) :
    ∃ c rest, text = c :: rest ∧ isSpace c = false := by
  cases written with
  | token start whole value => exact ⟨_, _, rfl, isSpace_of_delimiter (whole _ List.mem_cons_self)⟩
  | string spelled => exact ⟨_, _, rfl, rfl⟩
  | empty space => exact ⟨_, _, rfl, rfl⟩
  | object written => exact ⟨_, _, rfl, rfl⟩

end

/-! ## The loader on any text of a tree -/

namespace Loader

variable {ι : Type} (n₀ c₀ : Char) (stod : Text → Except StdException δ) (fuels : ι → Nat)

/-- Reading `text` as the value of a key gives `v`, and what comes behind the value leads on to `f`. -/
def ReadsValue (text : Text) (v : ConfigValue δ) (f : Place δ → Place δ) : Prop :=
  ∀ ⦃is : Stream⦄ ⦃d : Char⦄ ⦃rest : Text⦄ (place : Place δ), isDelimiter d = true →
    skipWs is = .good (text ++ d :: rest) →
    ∃ after, (∀ i, parseValue n₀ c₀ stod (fuels i) is = some (.ok v, after)) ∧
      Goes (fun i => step n₀ c₀ stod (fuels i)) (place.on after) ((f place).on (.good (d :: rest)))

def ReadsInside (text : Text) (f : Place δ → Place δ) : Prop :=
  ∀ (d : Char) (rest : Text) (place : Place δ), d = ',' ∨ d = '}' →
    Goes (fun i => step n₀ c₀ stod (fuels i)) (place.on (.good (text ++ d :: rest))) ((f place).on (.good (d :: rest)))

theorem goes_spaces {blank : Text} (space : Blank blank) (rest : Text) (place : Place δ) :
    Goes (fun i => step n₀ c₀ stod (fuels i)) (place.on (.good (blank ++ rest))) (place.on (.good rest)) := by
  induction blank with
  | nil => exact .refl
  | cons c blank ih =>
      have round i := step_space n₀ c₀ stod (fuels i) (s := place.on (.good (c :: (blank ++ rest)))) rfl
        (space c (by simp))
      exact .head round (ih fun d member => space d (by simp [member]))

theorem readsValue_leaf {text : Text} {v : ConfigValue δ}
    (parsed : ∀ {is : Stream} {d : Char} {rest : Text}, isDelimiter d = true →
      skipWs is = .good (text ++ d :: rest) →
      ∀ fuel, parseValue n₀ c₀ stod fuel is = some (.ok v, .good (d :: rest))) :
    ReadsValue n₀ c₀ stod fuels text v id :=
  fun _ _ _ _ delimiter front => ⟨_, fun i => parsed delimiter front (fuels i), .refl⟩

theorem readsInside_blank {blank : Text} (space : Blank blank) : ReadsInside n₀ c₀ stod fuels blank (id : Place δ → _) :=
  fun d rest place _ => goes_spaces n₀ c₀ stod fuels space (d :: rest) place

theorem readsValue_object {text : Text} {f : Place δ → Place δ} (inside : ReadsInside n₀ c₀ stod fuels text f) :
    ReadsValue n₀ c₀ stod fuels ('{' :: (text ++ ['}'])) .null fun place => (f place.openBrace).closeBrace := by
  intro is d rest place delimiter front
  have opened : skipWs is = .good ('{' :: (text ++ '}' :: d :: rest)) := by simpa using front
  refine ⟨_, fun i => parseValue_brace n₀ c₀ stod (fuels i) opened, ?_⟩
  have enter : Goes (fun i => step n₀ c₀ stod (fuels i)) (place.on (.good ('{' :: (text ++ '}' :: d :: rest))))
      (place.openBrace.on (.good (text ++ '}' :: d :: rest))) := by
    apply Goes.one
    intro i
    rw [step_open n₀ c₀ stod (fuels i) rfl, place.on_openBrace]
    rfl
  have leave : Goes (fun i => step n₀ c₀ stod (fuels i)) ((f place.openBrace).on (.good ('}' :: d :: rest)))
      ((f place.openBrace).closeBrace.on (.good (d :: rest))) := by
    apply Goes.one
    intro i
    rw [step_close n₀ c₀ stod (fuels i) rfl, Place.on_closeBrace]
    rfl
  exact (enter.trans (inside '}' (d :: rest) place.openBrace (.inr rfl))).trans leave

theorem readsInside_member {b₁ b₂ b₃ b₄ spelling text key : Text} {v : ConfigValue δ} {f : Place δ → Place δ}
    (space₁ : Blank b₁) (space₂ : Blank b₂) (space₃ : Blank b₃) (space₄ : Blank b₄) (spelled : Spells spelling key)
    (visible : ∃ c body, text = c :: body ∧ isSpace c = false) (reads : ReadsValue n₀ c₀ stod fuels text v f) :
    ReadsInside n₀ c₀ stod fuels
      (b₁ ++ '"' :: (spelling ++ '"' :: (b₂ ++ ':' :: (b₃ ++ (text ++ b₄))))) fun place => f (place.setMember key v) := by
  intro d rest place stop
  obtain ⟨e, more, behind, delimiter⟩ : ∃ e more, b₄ ++ d :: rest = e :: more ∧ isDelimiter e = true := by
    cases b₄ with
    | nil => exact ⟨d, rest, rfl, by rcases stop with rfl | rfl <;> rfl⟩
    | cons e b₄ => exact ⟨e, b₄ ++ d :: rest, rfl, by simp [isDelimiter, space₄ e (by simp)]⟩
  obtain ⟨c, body, rfl, visible⟩ := visible
  have colon : skipWs (skipString (spelling ++ '"' :: (b₂ ++ ':' :: (b₃ ++ (c :: body ++ e :: more))))) =
      .good (':' :: (b₃ ++ (c :: body ++ e :: more))) := by
    rw [skipString_spells spelled, skipWs_blank space₂ _ rfl]
  have front : skipWs (valueStart (b₃ ++ (c :: body ++ e :: more))) = .good (c :: body ++ e :: more) := by
    rw [valueStart, putback_get, List.cons_append, skipWs_blank space₃ _ visible]
  obtain ⟨after, parsed, value_read⟩ := reads (place.setMember key v) delimiter front
  have member_read : Goes (fun i => step n₀ c₀ stod (fuels i))
      (place.on (.good ('"' :: (spelling ++ '"' :: (b₂ ++ ':' :: (b₃ ++ (c :: body ++ e :: more)))))))
      ((place.setMember key v).on after) := by
    apply Goes.one
    intro i
    rw [step_quote n₀ c₀ stod (fuels i) rfl, readMember_colon n₀ c₀ stod (fuels i) rfl colon, readValue, parsed i,
      stringBody_spells n₀ spelled]
    rfl
  have before := goes_spaces n₀ c₀ stod fuels space₁
    ('"' :: (spelling ++ '"' :: (b₂ ++ ':' :: (b₃ ++ (c :: body ++ e :: more))))) place
  have between := goes_spaces n₀ c₀ stod fuels space₄ (d :: rest) (f (place.setMember key v))
  rw [behind] at between
  have whole : b₁ ++ '"' :: (spelling ++ '"' :: (b₂ ++ ':' :: (b₃ ++ (c :: body ++ b₄)))) ++ d :: rest =
      b₁ ++ '"' :: (spelling ++ '"' :: (b₂ ++ ':' :: (b₃ ++ (c :: body ++ e :: more)))) := by
    simp [← behind]
  rw [whole]
  exact ((before.trans member_read).trans value_read).trans between

theorem readsInside_comma {text rest : Text} {f g : Place δ → Place δ} (first : ReadsInside n₀ c₀ stod fuels text f)
    (others : ReadsInside n₀ c₀ stod fuels rest g) :
    ReadsInside n₀ c₀ stod fuels (text ++ ',' :: rest) fun place => g (f place) := by
  intro d tail place stop
  have read := first ',' (rest ++ d :: tail) place (.inl rfl)
  have comma : Goes (fun i => step n₀ c₀ stod (fuels i)) ((f place).on (.good (',' :: (rest ++ d :: tail))))
      ((f place).on (.good (rest ++ d :: tail))) :=
    Goes.one fun i => step_other n₀ c₀ stod (fuels i) rfl (by decide)
  rw [List.append_assoc]
  exact (read.trans comma).trans (others d tail (f place) stop)

-- By induction on the text's derivation.
mutual

theorem readsValue_of_writes {text : Text} {tree : Tree δ} :
    Writes stod text tree → ReadsValue n₀ c₀ stod fuels text tree.first tree.inside
  | @Writes.token _ _ c _ _ start whole value => readsValue_leaf n₀ c₀ stod fuels fun delimiter front fuel => by
      have tail := fun d member => whole d (List.mem_cons_of_mem c member)
      rw [parseValue_token n₀ c₀ stod fuel front start tail delimiter, value]
      rfl
  | .string spelled => readsValue_leaf n₀ c₀ stod fuels fun delimiter front fuel =>
      parseValue_string n₀ c₀ stod fuel spelled (by simpa using front)
  | .empty space => readsValue_object n₀ c₀ stod fuels (readsInside_blank n₀ c₀ stod fuels space)
  | .object written => readsValue_object n₀ c₀ stod fuels (readsInside_of_writes written)

theorem readsInside_of_member {text : Text} {member : Text × Tree δ} :
    WritesMember stod text member → ReadsInside n₀ c₀ stod fuels text (Tree.walk [member])
  | .mk space₁ space₂ space₃ space₄ spelled written =>
      readsInside_member n₀ c₀ stod fuels space₁ space₂ space₃ space₄ spelled written.start
        (readsValue_of_writes written)

theorem readsInside_of_writes {text : Text} {members : List (Text × Tree δ)} :
    WritesMembers stod text members → ReadsInside n₀ c₀ stod fuels text (Tree.walk members)
  | .last written => readsInside_of_member written
  | @WritesMembers.more _ _ text rest member members written others => by
      have first := readsInside_of_member written
      have behind := readsInside_of_writes others
      have whole : (Tree.walk (member :: members) : Place δ → Place δ) =
          fun place => Tree.walk members (Tree.walk [member] place) :=
        funext fun place => Tree.walk_append [member] members place
      rw [whole]
      exact readsInside_comma n₀ c₀ stod fuels first behind

end

end Loader

variable (n₀ c₀ : Char) (stod : Text → Except StdException δ)

def Loads (text : Text) (root : ConfigNode δ) : Prop :=
  ∃ n, ∀ fuel ≥ n, Config.parseJsonStream n₀ c₀ stod fuel text = some ⟨root, none⟩

theorem Loads.unique {text : Text} {root other : ConfigNode δ} (first : Loads n₀ c₀ stod text root)
    (second : Loads n₀ c₀ stod text other) : root = other := by
  obtain ⟨n, first⟩ := first
  obtain ⟨m, second⟩ := second
  have both := first (max n m) (Nat.le_max_left n m)
  rw [second (max n m) (Nat.le_max_right n m)] at both
  cases both
  rfl

theorem loads_of_goes {least : Nat} {text : Text} {place : Place δ} {is : Stream} (ended : is = .good [] ∨ is = .failed)
    (goes : Goes (fun fuel : { fuel // least ≤ fuel } => Loader.step n₀ c₀ stod fuel.1)
      (({} : Place δ).on (.good text)) (place.on is)) : Loads n₀ c₀ stod text place.root := by
  obtain ⟨n, rounds⟩ := goes.loop
  refine ⟨max (n + 1) least, fun fuel enough => ?_⟩
  have same := rounds ⟨fuel, (Nat.le_max_right _ _).trans enough⟩ (fuel - n)
  have bound : n + (fuel - n) = fuel := by omega
  obtain ⟨more, left⟩ : ∃ more, fuel - n = more + 1 := ⟨fuel - n - 1, by omega⟩
  rw [bound] at same
  rw [Config.parseJsonStream]
  change (loop (Loader.step n₀ c₀ stod fuel) fuel (({} : Place δ).on (.good text))).join = _
  rw [same, left]
  rcases ended with rfl | rfl
  · rfl
  · rfl

theorem goes_open {ι : Type} (fuels : ι → Nat) (rest : Text) :
    Goes (fun i => Loader.step n₀ c₀ stod (fuels i)) (({} : Place δ).on (.good ('{' :: rest)))
      (({} : Place δ).on (.good rest)) := by
  apply Goes.one
  intro i
  rw [Loader.step_open n₀ c₀ stod (fuels i) rfl]
  simp [Place.on, Loader.openBrace]

theorem loads_inside {least : Nat} {text before behind : Text} {f : Place δ → Place δ}
    (reads : Loader.ReadsInside n₀ c₀ stod (fun fuel : { fuel // least ≤ fuel } => fuel.1) text f)
    (space : Blank before) (space' : Blank behind) :
    Loads n₀ c₀ stod (before ++ ('{' :: (text ++ ['}']) ++ behind)) (f {}).root := by
  let fuels : { fuel // least ≤ fuel } → Nat := fun fuel => fuel.1
  have start := Loader.goes_spaces n₀ c₀ stod fuels space ('{' :: (text ++ '}' :: behind)) {}
  have opened := goes_open n₀ c₀ stod fuels (text ++ '}' :: behind)
  have read := reads '}' behind {} (.inr rfl)
  have closed : Goes (fun i => Loader.step n₀ c₀ stod (fuels i)) ((f {}).on (.good ('}' :: behind)))
      ((f {}).closeBrace.on (.good behind)) := by
    apply Goes.one
    intro i
    rw [Loader.step_close n₀ c₀ stod (fuels i) rfl, Place.on_closeBrace]
    rfl
  have ending := Loader.goes_spaces n₀ c₀ stod fuels space' [] (f {}).closeBrace
  have whole : '{' :: (text ++ ['}']) ++ behind = '{' :: (text ++ '}' :: behind) := by simp
  rw [List.append_nil] at ending
  rw [whole]
  have loaded := loads_of_goes n₀ c₀ stod (.inl rfl) ((((start.trans opened).trans read).trans closed).trans ending)
  exact loaded

end ServerFramework.Base
