import ServerFramework.Base.ConfigFile
import ServerFramework.Proof.Base.ConfigLoad
import ServerFramework.Proof.Base.ConfigTree

namespace ServerFramework.Base

variable {δ : Type}

/-! ## What a text assigns -/

structure Assignment where
  sectionName : Text
  key : Text
  val : Text
  deriving DecidableEq, Repr

namespace Assignment

def fullKey (entry : Assignment) : Text := Ini.fullKey entry.sectionName entry.key

def leaf (entry : Assignment) : ConfigNode δ := .mk (some (.string entry.val)) []

end Assignment

namespace Ini

def assignments (sectionName : Text) : List Text → List Assignment
  | [] => []
  | line :: rest => match readLine line with
      | .skip => assignments sectionName rest
      | .header name => assignments name rest
      | .assign key val => ⟨sectionName, key, val⟩ :: assignments sectionName rest

def put (root : ConfigNode δ) (entry : Assignment) : ConfigNode δ := ConfigNode.putChild entry.fullKey entry.leaf root

theorem foldl_step (lines : List Text) (s : IniLoader δ) :
    (lines.foldl step s).root = (assignments s.sectionName lines).foldl put s.root := by
  induction lines generalizing s with
  | nil => rfl
  | cons line rest ih =>
      rw [List.foldl_cons, ih]
      cases read : readLine line with
      | skip => simp only [step, assignments, read]
      | header name => simp only [step, assignments, read]
      | assign key val =>
          simp only [step, assignments, read, List.foldl_cons]
          rfl

def textAssignments (text : Text) : List Assignment := assignments [] (lines text)

theorem parseIniStream_eq (root : ConfigNode δ) (text : Text) :
    Config.parseIniStream root text = (textAssignments text).foldl put root :=
  foldl_step (lines text) { root := root }

theorem getKey_put (root : ConfigNode δ) (entry : Assignment) (key : Text) :
    (put root entry).getKey key = if key = entry.fullKey then some entry.leaf else root.getKey key :=
  ConfigNode.getKey_putChild ..

theorem getKey_foldl_put (entries : List Assignment) (root : ConfigNode δ) (key : Text) :
    (entries.foldl put root).getKey key = root.getKey key ∧ (∀ entry ∈ entries, entry.fullKey ≠ key) ∨
      ∃ entry ∈ entries, entry.fullKey = key ∧ (entries.foldl put root).getKey key = some entry.leaf := by
  induction entries generalizing root with
  | nil => exact .inl ⟨rfl, fun _ member => absurd member List.not_mem_nil⟩
  | cons first rest ih =>
      rw [List.foldl_cons]
      rcases ih (put root first) with ⟨kept, others⟩ | ⟨entry, member, same, found⟩
      · rw [getKey_put] at kept
        by_cases here : key = first.fullKey
        · rw [if_pos here] at kept
          exact .inr ⟨first, List.mem_cons_self, here.symm, kept⟩
        · rw [if_neg here] at kept
          refine .inl ⟨kept, ?_⟩
          intro entry member
          rcases List.mem_cons.mp member with rfl | later
          · exact Ne.symm here
          · exact others entry later
      · exact .inr ⟨entry, List.mem_cons_of_mem _ member, same, found⟩

end Ini

/-! ## Looking a value up -/

theorem get_pair {sectionName key : Text} (named : sectionName ≠ [] ∧ '.' ∉ sectionName) (keyed : key ≠ [] ∧ '.' ∉ key)
    (root : ConfigNode δ) :
    Config.get root (sectionName ++ '.' :: key) = (root.getKey sectionName).bind fun child => child.getKey key := by
  have path : sectionName ++ '.' :: key = joined [sectionName, key] := by simp [joined, List.intercalate]
  have keys : ∀ part ∈ [sectionName, key], part ≠ [] ∧ '.' ∉ part := by
    intro part member
    rcases List.mem_cons.mp member with rfl | last
    · exact named
    · rw [List.mem_singleton.mp last]
      exact keyed
  rw [path, Config.get, getFrom_joined keys root (Nat.le_refl _)]
  cases found : root.getKey sectionName with
  | none => simp [ConfigNode.follow, found]
  | some child => simp [ConfigNode.follow, found]

/-- `val` is the last value that the text gives the key under that section. -/
def LastAssigned (text sectionName key val : Text) : Prop :=
  ∃ before after, Ini.textAssignments text = before ++ ⟨sectionName, key, val⟩ :: after ∧
    ∀ entry ∈ after, ¬ (entry.sectionName = sectionName ∧ entry.key = key)

def Reads (root : ConfigNode δ) (path val : Text) : Prop :=
  ∃ node, Config.get root path = some node ∧ node.asString = some val

theorem fullKey_eq_iff {sectionName : Text} (plain : '.' ∉ sectionName) (entry : Assignment) :
    entry.fullKey = sectionName ↔ entry.sectionName = [] ∧ entry.key = sectionName := by
  by_cases outside : entry.sectionName = []
  · simp [Assignment.fullKey, Ini.fullKey, outside]
  · constructor
    · intro same
      rw [Assignment.fullKey, Ini.fullKey, if_neg outside] at same
      rw [← same] at plain
      exact absurd (by simp) plain
    · intro both
      exact absurd both.1 outside

/-- The loader stores the value under one flat key, the lookup goes down two levels: it finds what was there before,
unless a bare key has taken the place of the section. -/
theorem ini_value_read_iff (root : ConfigNode δ) (text sectionName key val : Text)
    (named : sectionName ≠ [] ∧ '.' ∉ sectionName) (keyed : key ≠ [] ∧ '.' ∉ key)
    (_assigned : LastAssigned text sectionName key val) :
    Reads (Config.parseIniStream root text) (sectionName ++ '.' :: key) val ↔
      Reads root (sectionName ++ '.' :: key) val ∧
        ∀ entry ∈ Ini.textAssignments text, ¬ (entry.sectionName = [] ∧ entry.key = sectionName) := by
  simp only [Reads, get_pair named keyed, Ini.parseIniStream_eq, ← fullKey_eq_iff named.2]
  rcases Ini.getKey_foldl_put (Ini.textAssignments text) root sectionName with ⟨kept, others⟩ | ⟨entry, member, same, found⟩
  · rw [kept]
    exact ⟨fun reads => ⟨reads, others⟩, And.left⟩
  · constructor
    · rintro ⟨node, below, -⟩
      rw [found] at below
      cases below
    · rintro ⟨-, others⟩
      exact absurd same (others entry member)

def iniText : Text :=
  ['[', 's', 'e', 'r', 'v', 'e', 'r', ']', '\n', 'h', 'o', 's', 't', '=', 'l', 'o', 'c', 'a', 'l', 'h', 'o', 's', 't', '\n']

def server : Text := ['s', 'e', 'r', 'v', 'e', 'r']

def host : Text := ['h', 'o', 's', 't']

def localhost : Text := ['l', 'o', 'c', 'a', 'l', 'h', 'o', 's', 't']

theorem iniText_assigns : LastAssigned iniText server host localhost :=
  ⟨[], [], by decide, fun _ member => absurd member List.not_mem_nil⟩

theorem ini_value_read_behind_json :
    Reads (Config.parseIniStream (.mk none [(server, .mk none [(host, .mk (some (.string localhost)) [])])] :
      ConfigNode Unit) iniText) (server ++ '.' :: host) localhost :=
  (ini_value_read_iff _ iniText server host localhost (by decide) (by decide) iniText_assigns).mpr
    ⟨⟨_, rfl, rfl⟩, by decide⟩

theorem ini_value_not_read :
    LastAssigned iniText server host localhost ∧
    ¬ Reads (Config.parseIniStream (.empty : ConfigNode Unit) iniText) (server ++ '.' :: host) localhost := by
  refine ⟨iniText_assigns, ?_⟩
  rintro ⟨node, found, -⟩
  cases found

end ServerFramework.Base
