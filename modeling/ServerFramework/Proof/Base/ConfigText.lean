import Mathlib.Data.List.TakeWhile
import ServerFramework.Library.Table
import ServerFramework.Proof.Base.ConfigTermination
import ServerFramework.Proof.Base.ConfigTree

namespace ServerFramework.Base
open Library JsonParser

/-! ## Trees and their texts -/

inductive Json
  | null
  | bool (b : Bool)
  | int (i : Int)
  | string (s : Text)
  | object (members : List (Text × Json))

namespace Json

def find : Json → List Text → Option Json
  | tree, [] => some tree
  | object members, key :: path => (members.lookup key).bind fun member => member.find path
  | _, _ :: _ => none

inductive Proper : Json → Prop
  | null : Proper null
  | bool (b : Bool) : Proper (bool b)
  | int {i : Int} (fits : Fits 64 i) : Proper (int i)
  | string (s : Text) : Proper (string s)
  | object {members : List (Text × Json)} (keys : ∀ m ∈ members, m.1 ≠ [] ∧ '.' ∉ m.1)
      (distinct : (members.map Prod.fst).Nodup) (proper : ∀ m ∈ members, Proper m.2) : Proper (object members)

def leaf (δ : Type) : Json → Option (ConfigValue δ)
  | null => some .null
  | bool b => some (.bool b)
  | int i => some (.int64 i)
  | string s => some (.string s)
  | object _ => none

end Json

def Blank (text : Text) : Prop := ∀ c ∈ text, isSpace c

def escapes : List (Char × Char) := [('"', '"'), ('\\', '\\'), ('n', '\n'), ('t', '\t'), ('r', '\r')]

inductive Spells : Text → Text → Prop
  | nil : Spells [] []
  | plain {c : Char} {text s : Text} (ordinary : c ≠ '"' ∧ c ≠ '\\') (rest : Spells text s) :
      Spells (c :: text) (c :: s)
  | escape {e c : Char} {text s : Text} (known : (e, c) ∈ escapes) (rest : Spells text s) :
      Spells ('\\' :: e :: text) (c :: s)

def Ordinary (s : Text) : Prop := ∀ c ∈ s, c ≠ '"' ∧ c ≠ '\\'

instance (s : Text) : Decidable (Ordinary s) := List.decidableBAll (fun c => c ≠ '"' ∧ c ≠ '\\') s

theorem ordinary_append {s t : Text} : Ordinary (s ++ t) ↔ Ordinary s ∧ Ordinary t := List.forall_mem_append

theorem spells_ordinary {s : Text} (ordinary : Ordinary s) : Spells s s := by
  induction s with
  | nil => exact .nil
  | cons c s ih =>
      exact .plain (ordinary c List.mem_cons_self) (ih fun d member => ordinary d (List.mem_cons_of_mem _ member))

inductive Numeral : Text → Int → Prop
  | plain {digits : Text} (nonempty : digits ≠ []) (decimal : ∀ c ∈ digits, c.isDigit) :
      Numeral digits (Nat.ofDigitChars 10 digits 0)
  | minus {digits : Text} (nonempty : digits ≠ []) (decimal : ∀ c ∈ digits, c.isDigit) :
      Numeral ('-' :: digits) (-Nat.ofDigitChars 10 digits 0)

mutual

inductive Renders : Text → Json → Prop
  | null : Renders ['n', 'u', 'l', 'l'] .null
  | trueToken : Renders ['t', 'r', 'u', 'e'] (.bool true)
  | falseToken : Renders ['f', 'a', 'l', 's', 'e'] (.bool false)
  | int {text : Text} {i : Int} (numeral : Numeral text i) : Renders text (.int i)
  | string {text s : Text} (spelled : Spells text s) : Renders ('"' :: (text ++ ['"'])) (.string s)
  | empty {blank : Text} (space : Blank blank) : Renders ('{' :: (blank ++ ['}'])) (.object [])
  | object {text : Text} {members : List (Text × Json)} (rendered : RendersMembers text members) :
      Renders ('{' :: (text ++ ['}'])) (.object members)

inductive RendersMember : Text → Text × Json → Prop
  | mk {b₁ b₂ b₃ b₄ spelling text key : Text} {value : Json} (space₁ : Blank b₁) (space₂ : Blank b₂)
      (space₃ : Blank b₃) (space₄ : Blank b₄) (spelled : Spells spelling key) (rendered : Renders text value) :
      RendersMember (b₁ ++ '"' :: (spelling ++ '"' :: (b₂ ++ ':' :: (b₃ ++ (text ++ b₄))))) (key, value)

inductive RendersMembers : Text → List (Text × Json) → Prop
  | last {text : Text} {member : Text × Json} (rendered : RendersMember text member) :
      RendersMembers text [member]
  | more {text rest : Text} {member : Text × Json} {members : List (Text × Json)}
      (rendered : RendersMember text member) (others : RendersMembers rest members) :
      RendersMembers (text ++ ',' :: rest) (member :: members)

end

def RendersText (text : Text) (tree : Json) : Prop :=
  ∃ before body behind, Blank before ∧ Blank behind ∧ Renders body tree ∧ text = before ++ (body ++ behind)

/-! ## What the loader builds of a tree -/

namespace Json
open ConfigNode

variable {δ : Type}

mutual

def node : Json → ConfigNode δ
  | null => mk (some .null) []
  | bool b => mk (some (.bool b)) []
  | int i => mk (some (.int64 i)) []
  | string s => mk (some (.string s)) []
  | object members => addAll members (mk (some .null) [])

def addAll : List (Text × Json) → ConfigNode δ → ConfigNode δ
  | [], parent => parent
  | (key, value) :: members, parent => addAll members (putChild key value.node parent)

end

theorem addAll_eq (members : List (Text × Json)) (parent : ConfigNode δ) :
    addAll members parent = putAll (members.map fun m => (m.1, m.2.node)) parent := by
  induction members generalizing parent with
  | nil => rfl
  | cons member members ih => exact ih _

theorem getKey_addAll {members : List (Text × Json)} (distinct : (members.map Prod.fst).Nodup)
    (parent : ConfigNode δ) (key : Text) :
    (addAll members parent).getKey key = ((members.lookup key).map node).or (parent.getKey key) := by
  have nodes : ((members.map fun m => (m.1, (m.2.node : ConfigNode δ))).map Prod.fst).Nodup := by
    rw [List.map_map]
    exact distinct
  rw [addAll_eq, getKey_putAll, ← lookup_perm nodes (List.reverse_perm _).symm, lookup_map node members]

theorem follow_member {members : List (Text × Json)} (distinct : (members.map Prod.fst).Nodup)
    {parent : ConfigNode δ} (bare : ∀ key, parent.getKey key = none) (key : Text) (path : List Text) :
    (addAll members parent).follow (key :: path) =
      (members.lookup key).bind fun value => value.node.follow path := by
  rw [follow, getKey_addAll distinct]
  cases members.lookup key with
  | none => simp [bare]
  | some value => rfl

theorem follow_node {tree : Json} (proper : tree.Proper) (path : List Text) :
    (tree.node : ConfigNode δ).follow path = (tree.find path).map node := by
  induction path generalizing tree with
  | nil => cases tree <;> rfl
  | cons key path ih =>
      cases proper with
      | null => rfl
      | bool b => rfl
      | int fits => rfl
      | string s => rfl
      | object keys distinct proper =>
          rw [node, follow_member distinct (fun _ => rfl), find, Option.map_bind]
          apply Option.bind_congr
          intro value found
          obtain ⟨_, _, rfl, -⟩ := List.lookup_eq_some_iff.mp found
          exact ih (proper (key, value) (by simp))

theorem value_node {tree : Json} {v : ConfigValue δ} (leaf : tree.leaf δ = some v) :
    (tree.node : ConfigNode δ).value = some v := by
  cases tree with
  | object members => cases leaf
  | null => exact leaf
  | bool b => exact leaf
  | int i => exact leaf
  | string s => exact leaf

end Json

/-! ## The scanners on a rendered text -/

theorem skipWs_blank {blank : Text} (space : Blank blank) {c : Char} (rest : Text) (other : isSpace c = false) :
    skipWs (.good (blank ++ c :: rest)) = .good (c :: rest) := by
  induction blank with
  | nil => simp [skipWs, skipSpaces, other]
  | cons d blank ih =>
      have front : isSpace d = true := space d (by simp)
      have later := ih fun e member => space e (by simp [member])
      simpa [skipWs, skipSpaces, front] using later

variable (n₀ : Char)

theorem unescape_escapes {e c : Char} (known : (e, c) ∈ escapes) : unescape e = c := by
  simp only [escapes, List.mem_cons, Prod.mk.injEq, List.not_mem_nil, or_false] at known
  rcases known with ⟨rfl, rfl⟩ | ⟨rfl, rfl⟩ | ⟨rfl, rfl⟩ | ⟨rfl, rfl⟩ | ⟨rfl, rfl⟩ <;> rfl

theorem stringBody_spells {text s : Text} (spelled : Spells text s) (rest : Text) :
    stringBody n₀ (text ++ '"' :: rest) = (s, .good rest) := by
  induction spelled with
  | nil =>
      rw [List.nil_append, stringBody.eq_def]
      rfl
  | plain ordinary _ ih => simp [stringBody.eq_def n₀ (_ :: _), ordinary, ih]
  | escape known _ ih => simp [stringBody, ih, unescape_escapes known]

theorem skipString_spells {text s : Text} (spelled : Spells text s) (rest : Text) :
    skipString (text ++ '"' :: rest) = .good rest := by
  rw [← stringBody_stream '"', stringBody_spells '"' spelled]

theorem tokenTail_append {text : Text} (inside : ∀ c ∈ text, isDelimiter c = false) {d : Char} (rest : Text)
    (delimiter : isDelimiter d = true) : tokenTail (text ++ d :: rest) = (text, .good (d :: rest)) := by
  induction text with
  | nil => simp [tokenTail, delimiter]
  | cons c text ih =>
      have front := inside c (by simp)
      have later := ih fun e member => inside e (by simp [member])
      simp [tokenTail, front, later]

variable {δ : Type} (c₀ : Char) (stod : Text → Except StdException δ) (fuel : Nat)

theorem parseValue_string {is : Stream} {text s rest : Text} (spelled : Spells text s)
    (front : skipWs is = .good ('"' :: (text ++ '"' :: rest))) :
    parseValue n₀ c₀ stod fuel is = some (.ok (.string s), .good rest) := by
  simp [parseValue, front, stringBody_spells n₀ spelled]

theorem parseValue_brace {is : Stream} {rest : Text} (front : skipWs is = .good ('{' :: rest)) :
    parseValue n₀ c₀ stod fuel is = some (.ok .null, .good ('{' :: rest)) := by
  simp [parseValue, front]

theorem parseValue_token {is : Stream} {c d : Char} {text rest : Text}
    (front : skipWs is = .good (c :: (text ++ d :: rest))) (start : c ≠ '"' ∧ c ≠ '[' ∧ c ≠ '{')
    (inside : ∀ e ∈ text, isDelimiter e = false) (delimiter : isDelimiter d = true) :
    parseValue n₀ c₀ stod fuel is = some (tokenValue stod (c :: text), .good (d :: rest)) := by
  simp [parseValue, front, start, readToken, tokenTail_append inside rest delimiter]

theorem digit_plain {c : Char} (digit : c.isDigit = true) :
    isStdSpace c = false ∧ isDelimiter c = false ∧
      c ∉ ['"', '[', '{', '.', '-', '+', 't', 'f', 'n'] := by
  have other : ∀ d : Char, d.isDigit = false → c ≠ d := by
    rintro d letter rfl
    rw [digit] at letter
    cases letter
  simp [isStdSpace, isDelimiter, isSpace, other]

theorem strtol_numeral {text : Text} {i : Int} (numeral : Numeral text i) : strtol text = some i := by
  cases numeral with
  | @plain _ nonempty decimal =>
      cases text with
      | nil => exact absurd rfl nonempty
      | cons c digits =>
          have front := digit_plain (decimal c (by simp))
          have sign : signOf (c :: digits) = (1, c :: digits) := by
            rw [signOf.eq_def]
            split <;> simp_all
          have spaces : (c :: digits).dropWhile isStdSpace = c :: digits := by
            rw [List.dropWhile_cons_of_neg (by simp [front.1])]
          rw [strtol, spaces, sign]
          simp only [List.takeWhile_eq_self_iff.mpr decimal, List.isEmpty_cons, Int.one_mul]
          rfl
  | @minus digits nonempty decimal =>
      have empty : digits.isEmpty = false := by simpa using nonempty
      simp [strtol, isStdSpace, signOf, List.takeWhile_eq_self_iff.mpr decimal, empty]

theorem Numeral.shape {text : Text} {i : Int} (numeral : Numeral text i) :
    ∃ c tail, text = c :: tail ∧ (c = '-' ∨ c.isDigit) ∧ ∀ d ∈ tail, d.isDigit := by
  cases numeral with
  | plain nonempty decimal =>
      cases text with
      | nil => exact absurd rfl nonempty
      | cons c digits =>
          exact ⟨c, digits, rfl, .inr (decimal c (by simp)), fun d member => decimal d (by simp [member])⟩
  | @minus digits nonempty decimal => exact ⟨'-', digits, rfl, .inl rfl, decimal⟩

theorem numeral_start {c : Char} (start : c = '-' ∨ c.isDigit) :
    isSpace c = false ∧ c ∉ ['"', '[', '{', '.', 't', 'f', 'n'] := by
  rcases start with rfl | digit
  · decide
  · have plain := digit_plain digit
    simp_all [isDelimiter]

theorem tokenValue_numeral {text : Text} {i : Int} (numeral : Numeral text i) (fits : Fits 64 i) :
    tokenValue stod text = .ok (.int64 i) := by
  have parsed : stoll text = .ok i := by
    rw [stoll, stringToInt, strtol_numeral numeral]
    exact if_pos fits
  obtain ⟨c, tail, rfl, start, decimal⟩ := numeral.shape
  have first := (numeral_start start).2
  have point : '.' ∉ c :: tail := by
    intro member
    rcases List.mem_cons.mp member with rfl | inside
    · simp at first
    · exact absurd (decimal '.' inside) (by decide)
  simp only [List.mem_cons, not_or] at first
  simp [tokenValue, first, point, parsed]

theorem Renders.start {text : Text} {tree : Json} (rendered : Renders text tree) :
    ∃ c rest, text = c :: rest ∧ isSpace c = false := by
  cases rendered with
  | int numeral =>
      obtain ⟨c, tail, rfl, start, -⟩ := numeral.shape
      exact ⟨c, tail, rfl, (numeral_start start).1⟩
  | null => exact ⟨_, _, rfl, rfl⟩
  | trueToken => exact ⟨_, _, rfl, rfl⟩
  | falseToken => exact ⟨_, _, rfl, rfl⟩
  | string spelled => exact ⟨_, _, rfl, rfl⟩
  | empty space => exact ⟨_, _, rfl, rfl⟩
  | object members => exact ⟨_, _, rfl, rfl⟩

end ServerFramework.Base
