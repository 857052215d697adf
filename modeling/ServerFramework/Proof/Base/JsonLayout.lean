import ServerFramework.Proof.Base.ConfigLoad

namespace ServerFramework.Base
open JsonParser

/-! ## Indented documents -/

def indent (depth : Nat) : Text := List.replicate (2 * depth) ' '

def label (depth : Nat) (key : Text) : Text := indent depth ++ '"' :: (key ++ ['"', ':', ' '])

namespace Json

mutual

/-- A document in lines, one member a line and two blanks a level; what stands before and after it is on its first and
last line. Nothing is escaped. -/
def lines (depth : Nat) (before after : Text) : Json → List Text
  | null => [before ++ ['n', 'u', 'l', 'l'] ++ after]
  | bool b => [before ++ (if b then ['t', 'r', 'u', 'e'] else ['f', 'a', 'l', 's', 'e']) ++ after]
  | int i => [before ++ (toString i).toList ++ after]
  | string s => [before ++ '"' :: (s ++ ['"']) ++ after]
  | object members => (before ++ ['{', '\n']) :: (memberLines (depth + 1) members ++ [indent depth ++ '}' :: after])

def memberLines (depth : Nat) : List (Text × Json) → List Text
  | [] => []
  | [(key, value)] => lines depth (label depth key) ['\n'] value
  | (key, value) :: member :: members =>
      lines depth (label depth key) [',', '\n'] value ++ memberLines depth (member :: members)

end

inductive Simple : Json → Prop
  | null : Simple null
  | bool (b : Bool) : Simple (bool b)
  | int (i : Int) : Simple (int i)
  | string {s : Text} (ordinary : Ordinary s) : Simple (string s)
  | object {members : List (Text × Json)} (keys : ∀ m ∈ members, Ordinary m.1) (below : ∀ m ∈ members, Simple m.2) :
      Simple (object members)

end Json

theorem numeral_toString (i : Int) : Numeral (toString i).toList i := by
  have decimal (n : Nat) : ∀ c ∈ Nat.toDigits 10 n, c.isDigit :=
    fun c member => Nat.isDigit_of_mem_toDigits (by decide) (by decide) member
  cases i with
  | ofNat n =>
      have digits := Numeral.plain Nat.toDigits_ne_nil (decimal n)
      rw [Nat.ofDigitChars_ten_toDigits] at digits
      rw [Int.toString_eq_repr, Int.repr, Nat.toList_repr]
      exact digits
  | negSucc n =>
      have digits := Numeral.minus Nat.toDigits_ne_nil (decimal (n + 1))
      rw [Nat.ofDigitChars_ten_toDigits] at digits
      rw [Int.toString_eq_repr, Int.repr, String.toList_append, Nat.toList_repr]
      exact digits

theorem blank_line (depth : Nat) : Blank ('\n' :: indent depth) := by
  intro c member
  rcases List.mem_cons.mp member with rfl | behind
  · rfl
  · rw [List.eq_of_mem_replicate behind]
    rfl

theorem line_renders {key body : Text} {value : Json} (plain : Ordinary key) (rendered : Renders body value)
    (depth : Nat) {space : Text} (blank : Blank space) :
    RendersMember ('\n' :: (label depth key ++ body) ++ space) (key, value) := by
  have nothing : Blank [] := by simp [Blank]
  have one : Blank [' '] := by simp [Blank, isSpace]
  have member := @RendersMember.mk ('\n' :: indent depth) [] [' '] space _ _ _ _ (blank_line depth) nothing one blank
    (spells_ordinary plain) rendered
  simpa [label] using member

namespace Json

/-- The lines make up a text of the document, between what stands before and after. -/
def Lays (tree : Json) : Prop :=
  ∀ depth before after, ∃ body, Renders body tree ∧ (lines depth before after tree).flatten = before ++ (body ++ after)

theorem memberLines_renders {member : Text × Json} {members : List (Text × Json)} (depth : Nat)
    (keys : ∀ m ∈ member :: members, Ordinary m.1) (lays : ∀ m ∈ member :: members, Lays m.2) :
    ∃ text, '\n' :: (memberLines depth (member :: members)).flatten = text ++ ['\n'] ∧
      ∀ space, Blank space → RendersMembers (text ++ space) (member :: members) := by
  induction members generalizing member with
  | nil =>
      obtain ⟨key, value⟩ := member
      obtain ⟨body, rendered, same⟩ := lays _ List.mem_cons_self depth (label depth key) ['\n']
      refine ⟨'\n' :: (label depth key ++ body), ?_, fun space blank => ?_⟩
      · rw [memberLines, same]
        simp
      · exact .last (line_renders (keys _ List.mem_cons_self) rendered depth blank)
  | cons next members ih =>
      obtain ⟨key, value⟩ := member
      obtain ⟨body, rendered, same⟩ := lays _ List.mem_cons_self depth (label depth key) [',', '\n']
      obtain ⟨text, joined, others⟩ := ih (fun m member => keys m (List.mem_cons_of_mem _ member))
        fun m member => lays m (List.mem_cons_of_mem _ member)
      refine ⟨'\n' :: (label depth key ++ body) ++ ',' :: text, ?_, fun space blank => ?_⟩
      · rw [memberLines, List.flatten_append, same]
        simpa using congrArg (fun t => '\n' :: (label depth key ++ (body ++ ',' :: t))) joined
      · have nothing : Blank [] := by simp [Blank]
        have line := line_renders (keys _ List.mem_cons_self) rendered depth nothing
        rw [List.append_nil] at line
        rw [List.append_assoc]
        exact .more line (others space blank)

theorem Simple.lays {tree : Json} (simple : tree.Simple) : Lays tree := by
  induction simple with
  | null => exact fun depth before after => ⟨_, .null, by simp [lines]⟩
  | bool b =>
      cases b with
      | true => exact fun depth before after => ⟨_, .trueToken, by simp [lines]⟩
      | false => exact fun depth before after => ⟨_, .falseToken, by simp [lines]⟩
  | int i => exact fun depth before after => ⟨_, .int (numeral_toString i), by simp [lines]⟩
  | string ordinary => exact fun depth before after => ⟨_, .string (spells_ordinary ordinary), by simp [lines]⟩
  | @object members keys below ih =>
      intro depth before after
      cases members with
      | nil => exact ⟨_, .empty (blank_line depth), by simp [lines, memberLines]⟩
      | cons member members =>
          obtain ⟨text, joined, rendered⟩ := memberLines_renders (depth + 1) keys ih
          refine ⟨_, .object (rendered _ (blank_line depth)), ?_⟩
          rw [lines, List.flatten_cons, List.flatten_append]
          have whole : '\n' :: ((memberLines (depth + 1) (member :: members)).flatten ++ (indent depth ++ '}' :: after)) =
              text ++ '\n' :: (indent depth ++ '}' :: after) := by
            rw [← List.cons_append, joined, List.append_assoc]
            rfl
          simpa using congrArg (fun t => before ++ '{' :: t) whole

end Json

end ServerFramework.Base
