import ServerFramework.Library.Trim
import ServerFramework.Proof.Base.ConfigIni

namespace ServerFramework.Base
open Library

/-! ## Printing -/

structure IniSection where
  name : Text
  entries : List (Text × Text)

namespace Ini

def isTrailing (c : Char) : Bool := isBlank c || c == '\r'

def Plain (text : Text) : Prop := ∀ c ∈ text, c ≠ '#' ∧ c ≠ ';' ∧ c ≠ '\n'

structure SectionName (name : Text) : Prop where
  plain : Plain name
  closes : ']' ∉ name

structure EntryKey (key : Text) : Prop where
  plain : Plain key
  single : '=' ∉ key
  opens : key.head? ≠ some '['
  trimmed : Trimmed isTrailing key

structure EntryValue (val : Text) : Prop where
  plain : Plain val
  trimmed : Trimmed isTrailing val

inductive Comment : Text → Prop
  | none : Comment []
  | hash {text : Text} (inside : '\n' ∉ text) : Comment ('#' :: text)
  | semicolon {text : Text} (inside : '\n' ∉ text) : Comment (';' :: text)

def Blanks (text : Text) : Prop := ∀ c ∈ text, isBlank c = true

def Trailing (text : Text) : Prop := ∀ c ∈ text, isTrailing c = true

inductive Filler : Text → Prop
  | mk {trail comment : Text} (blank : Trailing trail) (behind : Comment comment) : Filler (trail ++ comment)

inductive HeaderLine (name : Text) : Text → Prop
  | mk {lead trail comment : Text} (before : Blanks lead) (named : SectionName name) (after : Trailing trail)
      (behind : Comment comment) : HeaderLine name (lead ++ '[' :: (name ++ ']' :: trail) ++ comment)

inductive EntryLine (key val : Text) : Text → Prop
  | mk {lead left right trail comment : Text} (before : Blanks lead) (keyed : EntryKey key) (first : Blanks left)
      (second : Blanks right) (valued : EntryValue val) (after : Trailing trail) (behind : Comment comment) :
      EntryLine key val (lead ++ (key ++ left) ++ '=' :: (right ++ (val ++ trail)) ++ comment)

inductive PrintsEntries : List (Text × Text) → List Text → Prop
  | nil : PrintsEntries [] []
  | filler {entries : List (Text × Text)} {line : Text} {rest : List Text} (blank : Filler line)
      (prints : PrintsEntries entries rest) : PrintsEntries entries (line :: rest)
  | entry {key val : Text} {entries : List (Text × Text)} {line : Text} {rest : List Text}
      (first : EntryLine key val line) (prints : PrintsEntries entries rest) :
      PrintsEntries ((key, val) :: entries) (line :: rest)

inductive PrintsSections : List IniSection → List Text → Prop
  | nil : PrintsSections [] []
  | next {name : Text} {entries : List (Text × Text)} {header : Text} {body : List Text} {sections : List IniSection}
      {rest : List Text} (titled : HeaderLine name header) (prints : PrintsEntries entries body)
      (others : PrintsSections sections rest) : PrintsSections (⟨name, entries⟩ :: sections) (header :: body ++ rest)

/-- Lines with their ends; the last one may lack its own. -/
inductive Joined : List Text → Text → Prop
  | nil : Joined [] []
  | last {line : Text} (content : line ≠ []) : Joined [line] line
  | next {line text : Text} {rest : List Text} (joined : Joined rest text) : Joined (line :: rest) (line ++ '\n' :: text)

/-- A document: entries in front of any header, and sections. -/
inductive Prints (global : List (Text × Text)) (sections : List IniSection) : Text → Prop
  | mk {front back : List Text} {text : Text} (first : PrintsEntries global front) (others : PrintsSections sections back)
      (joined : Joined (front ++ back) text) : Prints global sections text

/-! ## What is printed -/

def sectionAssignments (name : Text) (entries : List (Text × Text)) : List Assignment :=
  entries.map fun entry => ⟨name, entry.1, entry.2⟩

def documentAssignments (global : List (Text × Text)) (sections : List IniSection) : List Assignment :=
  sectionAssignments [] global ++ sections.flatMap fun part => sectionAssignments part.name part.entries

def lastValue (entries : List Assignment) (key : Text) : Option Text :=
  (entries.reverse.find? fun entry => entry.fullKey = key).map Assignment.val

/-! ## Lines -/

theorem isBlank_trailing {c : Char} (blank : isBlank c = true) : isTrailing c = true := by
  simp [isTrailing, blank]

theorem Blanks.trailing {text : Text} (blanks : Blanks text) : Trailing text :=
  fun c member => isBlank_trailing (blanks c member)

theorem Trailing.plain {text : Text} (trailing : Trailing text) : Plain text := by
  intro c member
  have known := trailing c member
  refine ⟨?_, ?_, ?_⟩ <;> rintro rfl <;> exact absurd known (by decide)

theorem Plain.append {first second : Text} (one : Plain first) (two : Plain second) : Plain (first ++ second) :=
  List.forall_mem_append.mpr ⟨one, two⟩

theorem Plain.cons {c : Char} {text : Text} (one : c ≠ '#' ∧ c ≠ ';' ∧ c ≠ '\n') (rest : Plain text) : Plain (c :: text) :=
  List.forall_mem_cons.mpr ⟨one, rest⟩

theorem Plain.noBreak {text : Text} (plain : Plain text) : '\n' ∉ text := fun member => (plain '\n' member).2.2 rfl

theorem Comment.noBreak {text : Text} (comment : Comment text) : '\n' ∉ text := by
  cases comment with
  | none => exact List.not_mem_nil
  | hash inside => simpa using inside
  | semicolon inside => simpa using inside

theorem uncommented {code comment : Text} (plain : Plain code) (behind : Comment comment) :
    ((code ++ comment).takeWhile (· ≠ '#')).takeWhile (· ≠ ';') = code := by
  have hashes : ∀ c ∈ code, decide (c ≠ '#') = true := fun c member => by simp [(plain c member).1]
  have semicolons : ∀ c ∈ code, decide (c ≠ ';') = true := fun c member => by simp [(plain c member).2.1]
  cases behind with
  | none => rw [List.append_nil, takeWhile_all hashes, takeWhile_all semicolons]
  | hash => rw [takeWhile_stop hashes (by simp), takeWhile_all semicolons]
  | semicolon =>
      rw [List.takeWhile_append_of_pos hashes, List.takeWhile_cons_of_pos (by simp), takeWhile_stop semicolons (by simp)]

theorem cleanLine_eq {code comment : Text} (plain : Plain code) (behind : Comment comment) :
    cleanLine (code ++ comment) = (code.dropWhile isBlank).rdropWhile isTrailing := by
  rw [cleanLine, uncommented plain behind]
  rfl

theorem readLine_filler {line : Text} (filler : Filler line) : readLine line = .skip := by
  cases filler with
  | @mk trail comment blank behind =>
      have nothing : (trail.dropWhile isBlank).rdropWhile isTrailing = [] :=
        List.rdropWhile_eq_nil_iff.mpr fun c member => blank c ((List.dropWhile_sublist _).subset member)
      rw [readLine, cleanLine_eq blank.plain behind, nothing]

theorem readLine_header {name line : Text} (titled : HeaderLine name line) : readLine line = .header name := by
  cases titled with
  | @mk lead trail comment before named after behind =>
      have plain : Plain (lead ++ '[' :: (name ++ ']' :: trail)) :=
        before.trailing.plain.append (.cons (by decide) (named.plain.append (.cons (by decide) after.plain)))
      have cut : ((lead ++ '[' :: (name ++ ']' :: trail)).dropWhile isBlank).rdropWhile isTrailing =
          '[' :: (name ++ [']']) := by
        rw [dropWhile_stop (by decide), List.dropWhile_eq_nil_iff.mpr before, List.nil_append, ← List.cons_append,
          rdropWhile_stop (by decide), List.rdropWhile_eq_nil_iff.mpr after]
        rfl
      have name_only : (name ++ [']']).takeWhile (· ≠ ']') = name :=
        takeWhile_stop (fun c member => decide_eq_true (by rintro rfl; exact named.closes member)) (by simp)
      rw [readLine, cleanLine_eq plain behind, cut]
      simp only [true_and, List.mem_append, List.mem_singleton, or_true, if_true, name_only]

theorem readLine_assignment {line cleaned : Text} (clean : cleanLine line = cleaned) (content : cleaned ≠ [])
    (opens : cleaned.head? ≠ some '[') : readLine line = assignment cleaned := by
  cases cleaned with
  | nil => exact absurd rfl content
  | cons c rest =>
      have other : c ≠ '[' := fun same => opens (congrArg some same)
      rw [readLine, clean]
      exact if_neg (by simp [other])

theorem assignment_eq {front back : Text} (single : '=' ∉ front) :
    assignment (front ++ '=' :: back) =
      .assign (front.rdropWhile isBlank) ((back.dropWhile isBlank).rdropWhile isBlank) := by
  have before : (front ++ '=' :: back).takeWhile (· ≠ '=') = front :=
    takeWhile_stop (fun c member => decide_eq_true (by rintro rfl; exact single member)) (by simp)
  have behind : (front ++ '=' :: back).drop (front.length + 1) = back := by
    rw [List.drop_append, List.drop_eq_nil_of_le (Nat.le_succ _), List.nil_append, Nat.add_sub_cancel_left]
    rfl
  rw [assignment, if_pos (by simp)]
  simp only [before, behind]

theorem trimmed_blank {text : Text} (trimmed : Trimmed isTrailing text) : Trimmed isBlank text where
  first c member := Bool.eq_false_iff.mpr fun blank =>
    absurd (trimmed.first c member) (by simp [isBlank_trailing blank])
  last c member := Bool.eq_false_iff.mpr fun blank =>
    absurd (trimmed.last c member) (by simp [isBlank_trailing blank])

theorem entry_front {lead key left : Text} (before : Blanks lead) (keyed : EntryKey key) (first : Blanks left) :
    '=' ∉ (lead ++ (key ++ left)).dropWhile isBlank ∧ ((lead ++ (key ++ left)).dropWhile isBlank).head? ≠ some '[' ∧
      ((lead ++ (key ++ left)).dropWhile isBlank).rdropWhile isBlank = key := by
  refine ⟨?_, ?_, (trimmed_blank keyed.trimmed).trim before first⟩
  · intro member
    rcases List.mem_append.mp ((List.dropWhile_sublist _).subset member) with leading | rest
    · exact absurd (before _ leading) (by decide)
    · rcases List.mem_append.mp rest with inside | behind
      · exact keyed.single inside
      · exact absurd (first _ behind) (by decide)
  · rw [List.dropWhile_append_of_pos before]
    cases key with
    | nil =>
        rw [List.nil_append, List.dropWhile_eq_nil_iff.mpr first]
        nofun
    | cons c key =>
        have content : isBlank c = false := (trimmed_blank keyed.trimmed).first c rfl
        rw [List.cons_append, List.dropWhile_cons_of_neg (by simp [content])]
        exact keyed.opens

theorem entry_back {right val trail : Text} (second : Blanks right) (valued : EntryValue val) (after : Trailing trail) :
    (((right ++ (val ++ trail)).rdropWhile isTrailing).dropWhile isBlank).rdropWhile isBlank = val := by
  rw [← List.append_assoc, rdropWhile_append_all after]
  rcases List.eq_nil_or_concat val with rfl | ⟨rest, c, rfl⟩
  · rw [List.append_nil, List.rdropWhile_eq_nil_iff.mpr second.trailing]
    rfl
  · have content : isTrailing c = false := valued.trimmed.last c (by simp)
    have kept : (right ++ rest.concat c).rdropWhile isTrailing = right ++ (rest.concat c ++ []) := by
      rw [List.append_nil, List.concat_eq_append, ← List.append_assoc]
      exact List.rdropWhile_concat_neg _ _ _ (by simp [content])
    rw [kept]
    exact (trimmed_blank valued.trimmed).trim second (by simp)

theorem readLine_entry {key val line : Text} (entry : EntryLine key val line) : readLine line = .assign key val := by
  cases entry with
  | @mk lead left right trail comment before keyed first second valued after behind =>
      obtain ⟨single, opens, keyText⟩ := entry_front before keyed first
      have plain : Plain (lead ++ (key ++ left) ++ '=' :: (right ++ (val ++ trail))) :=
        (before.trailing.plain.append (keyed.plain.append first.trailing.plain)).append
          (.cons (by decide) (second.trailing.plain.append (valued.plain.append after.plain)))
      have clean : cleanLine (lead ++ (key ++ left) ++ '=' :: (right ++ (val ++ trail)) ++ comment) =
          (lead ++ (key ++ left)).dropWhile isBlank ++ '=' :: (right ++ (val ++ trail)).rdropWhile isTrailing := by
        rw [cleanLine_eq plain behind, dropWhile_stop (by decide), rdropWhile_stop (by decide)]
      rw [readLine_assignment clean (by simp) ?_, assignment_eq single, keyText, entry_back second valued after]
      rw [List.head?_append]
      cases head : ((lead ++ (key ++ left)).dropWhile isBlank).head? with
      | none => simp
      | some c => simpa [head] using opens

/-! ## Documents -/

theorem entries_read {name : Text} {entries : List (Text × Text)} {body : List Text} (prints : PrintsEntries entries body)
    (rest : List Text) :
    assignments name (body ++ rest) = sectionAssignments name entries ++ assignments name rest := by
  induction prints with
  | nil => rfl
  | filler blank _ ih => rw [List.cons_append, assignments, readLine_filler blank, ih]
  | entry first _ ih =>
      rw [List.cons_append, assignments, readLine_entry first, ih]
      rfl

theorem sections_read {sections : List IniSection} {back : List Text} (prints : PrintsSections sections back)
    (name : Text) :
    assignments name back = sections.flatMap fun part => sectionAssignments part.name part.entries := by
  induction prints generalizing name with
  | nil => rfl
  | next titled prints _ ih =>
      rw [List.cons_append, assignments, readLine_header titled]
      simp only [entries_read prints, ih, List.flatMap_cons]

theorem lines_break {line : Text} (inside : '\n' ∉ line) (text : Text) : lines (line ++ '\n' :: text) = line :: lines text := by
  induction line with
  | nil => rfl
  | cons c line ih =>
      obtain ⟨other, later⟩ := List.ne_and_not_mem_of_not_mem_cons inside
      rw [List.cons_append, lines, if_neg (Ne.symm other), ih later]

theorem lines_last {line : Text} (inside : '\n' ∉ line) (content : line ≠ []) : lines line = [line] := by
  induction line with
  | nil => exact absurd rfl content
  | cons c line ih =>
      obtain ⟨other, later⟩ := List.ne_and_not_mem_of_not_mem_cons inside
      rw [lines, if_neg (Ne.symm other)]
      cases line with
      | nil => rfl
      | cons d line => rw [ih later (List.cons_ne_nil _ _)]

theorem lines_joined {parts : List Text} {text : Text} (joined : Joined parts text) (inside : ∀ line ∈ parts, '\n' ∉ line) :
    lines text = parts := by
  induction joined with
  | nil => rfl
  | last content => exact lines_last (inside _ List.mem_cons_self) content
  | @next line text rest _ ih =>
      rw [lines_break (inside line List.mem_cons_self), ih fun other member => inside other (List.mem_cons_of_mem _ member)]

theorem Trailing.noBreak {text : Text} (trailing : Trailing text) : '\n' ∉ text := trailing.plain.noBreak

theorem filler_noBreak {line : Text} (filler : Filler line) : '\n' ∉ line := by
  cases filler with
  | mk blank behind => simp [blank.noBreak, behind.noBreak]

theorem header_noBreak {name line : Text} (titled : HeaderLine name line) : '\n' ∉ line := by
  cases titled with
  | mk before named after behind =>
      simp [before.trailing.noBreak, named.plain.noBreak, after.noBreak, behind.noBreak]

theorem entry_noBreak {key val line : Text} (entry : EntryLine key val line) : '\n' ∉ line := by
  cases entry with
  | mk before keyed first second valued after behind =>
      simp [before.trailing.noBreak, keyed.plain.noBreak, first.trailing.noBreak, second.trailing.noBreak,
        valued.plain.noBreak, after.noBreak, behind.noBreak]

theorem entries_noBreak {entries : List (Text × Text)} {body : List Text} (prints : PrintsEntries entries body) :
    ∀ line ∈ body, '\n' ∉ line := by
  induction prints with
  | nil => exact fun _ member => absurd member List.not_mem_nil
  | filler blank _ ih => exact List.forall_mem_cons.mpr ⟨filler_noBreak blank, ih⟩
  | entry first _ ih => exact List.forall_mem_cons.mpr ⟨entry_noBreak first, ih⟩

theorem sections_noBreak {sections : List IniSection} {back : List Text} (prints : PrintsSections sections back) :
    ∀ line ∈ back, '\n' ∉ line := by
  induction prints with
  | nil => exact fun _ member => absurd member List.not_mem_nil
  | next titled prints _ ih =>
      exact List.forall_mem_append.mpr
        ⟨List.forall_mem_cons.mpr ⟨header_noBreak titled, entries_noBreak prints⟩, ih⟩

theorem document_read {global : List (Text × Text)} {sections : List IniSection} {text : Text}
    (prints : Prints global sections text) : textAssignments text = documentAssignments global sections := by
  cases prints with
  | mk first others joined =>
      have inside := List.forall_mem_append.mpr ⟨entries_noBreak first, sections_noBreak others⟩
      rw [textAssignments, lines_joined joined inside, entries_read first, sections_read others, documentAssignments]

/-! ## What is loaded -/

theorem getKey_last (entries : List Assignment) (root : ConfigNode δ) (key : Text) (nothing : root.getKey key = none) :
    (entries.foldl put root).getKey key = (lastValue entries key).map fun val => .mk (some (.string val)) [] := by
  rw [lastValue]
  induction entries using List.reverseRecOn with
  | nil => simpa using nothing
  | append_singleton entries last ih =>
      rw [List.foldl_concat, getKey_put, List.reverse_append, List.reverse_singleton, List.singleton_append]
      by_cases here : last.fullKey = key
      · rw [if_pos here.symm, List.find?_cons_of_pos (by simpa using here)]
        rfl
      · rw [if_neg (Ne.symm here), List.find?_cons_of_neg (by simpa using here), ih]

theorem keys_nodup (entries : List Assignment) (root : ConfigNode δ) (distinct : (root.children.map Prod.fst).Nodup) :
    ((entries.foldl put root).children.map Prod.fst).Nodup ∧ (entries.foldl put root).value = root.value := by
  induction entries generalizing root with
  | nil => exact ⟨distinct, rfl⟩
  | cons entry entries ih =>
      exact ih (put root entry) (ConfigNode.nodup_putChild _ _ distinct)

theorem ini_round_trip (global : List (Text × Text)) (sections : List IniSection) (text : Text)
    (prints : Prints global sections text) :
    let root : ConfigNode δ := Config.parseIniStream .empty text
    (∀ key, root.getKey key =
      (lastValue (documentAssignments global sections) key).map fun val => .mk (some (.string val)) []) ∧
    (root.children.map Prod.fst).Nodup ∧ root.value = none := by
  intro root
  have parsed : root = (documentAssignments global sections).foldl put .empty := by
    rw [← document_read prints]
    exact parseIniStream_eq .empty text
  rw [parsed]
  exact ⟨fun key => getKey_last _ _ key rfl, keys_nodup _ _ List.nodup_nil⟩

theorem ini_round_trip_key_twice :
    (Config.parseIniStream (.empty : ConfigNode Unit)
        ['[', 's', ']', '\n', ' ', 'k', '=', '\t', '1', '=', '2', ' ', ';', '[', '\r', '\n', '\r', '\n', 'k', '=', '3']).getKey
      ['s', '.', 'k'] = some (.mk (some (.string ['3'])) []) := by
  have key : EntryKey ['k'] :=
    ⟨by simp [Plain], by decide, by decide, by simp [isTrailing, isBlank], by simp [isTrailing, isBlank]⟩
  have header : HeaderLine ['s'] ['[', 's', ']'] :=
    @HeaderLine.mk ['s'] [] [] [] (by simp [Blanks]) ⟨by simp [Plain], by decide⟩ (by simp [Trailing]) .none
  have first : EntryLine ['k'] ['1', '=', '2'] [' ', 'k', '=', '\t', '1', '=', '2', ' ', ';', '[', '\r'] :=
    @EntryLine.mk ['k'] ['1', '=', '2'] [' '] [] ['\t'] [' '] [';', '[', '\r'] (by simp [Blanks, isBlank]) key (by simp [Blanks])
      (by simp [Blanks, isBlank]) ⟨by simp [Plain], by simp [isTrailing, isBlank], by simp [isTrailing, isBlank]⟩
      (by simp [Trailing, isTrailing, isBlank]) (.semicolon (by decide))
  have blank : Filler ['\r'] := @Filler.mk ['\r'] [] (by simp [Trailing, isTrailing]) .none
  have second : EntryLine ['k'] ['3'] ['k', '=', '3'] :=
    @EntryLine.mk ['k'] ['3'] [] [] [] [] [] (by simp [Blanks]) key (by simp [Blanks]) (by simp [Blanks])
      ⟨by simp [Plain], by simp [isTrailing, isBlank], by simp [isTrailing, isBlank]⟩ (by simp [Trailing]) .none
  have prints : Prints [] [⟨['s'], [(['k'], ['1', '=', '2']), (['k'], ['3'])]⟩]
      ['[', 's', ']', '\n', ' ', 'k', '=', '\t', '1', '=', '2', ' ', ';', '[', '\r', '\n', '\r', '\n', 'k', '=', '3'] :=
    .mk .nil (.next header (.entry first (.filler blank (.entry second .nil))) .nil)
      (.next (.next (.next (.last (List.cons_ne_nil _ _)))))
  exact ((ini_round_trip _ _ _ prints).1 _).trans rfl

end Ini

end ServerFramework.Base
