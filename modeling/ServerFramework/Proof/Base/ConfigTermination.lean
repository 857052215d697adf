import ServerFramework.Base.Config

namespace ServerFramework.Base
open Library JsonParser

/-! ## How far the scanners read -/

def Stream.size : Stream → Nat
  | .good rest => rest.length
  | .failed => 0

@[simp] theorem Stream.size_good (rest : Text) : (Stream.good rest).size = rest.length := rfl

@[simp] theorem Stream.size_failed : Stream.failed.size = 0 := rfl

/-- What `after` has left is the end of what `before` had. -/
def Stream.Reads (before after : Stream) : Prop :=
  ∀ rest, after = .good rest → ∃ front, before = .good (front ++ rest)

namespace Stream.Reads

theorem refl (is : Stream) : is.Reads is := fun _ same => ⟨[], same⟩

theorem failed (is : Stream) : is.Reads .failed := by
  intro rest same
  cases same

theorem cons (c : Char) {rest : Text} {after : Stream} (reads : (Stream.good rest).Reads after) :
    (Stream.good (c :: rest)).Reads after := by
  intro left same
  obtain ⟨front, whole⟩ := reads left same
  cases whole
  exact ⟨c :: front, rfl⟩

theorem trans {before between after : Stream} (first : before.Reads between) (second : between.Reads after) :
    before.Reads after := by
  intro rest same
  obtain ⟨back, rfl⟩ := second rest same
  obtain ⟨front, rfl⟩ := first _ rfl
  exact ⟨front ++ back, by rw [List.append_assoc]⟩

theorem size {before after : Stream} (reads : before.Reads after) : after.size ≤ before.size := by
  cases after with
  | failed => exact Nat.zero_le _
  | good rest =>
      obtain ⟨front, rfl⟩ := reads rest rfl
      rw [size_good, size_good, List.length_append]
      exact Nat.le_add_left _ _

end Stream.Reads

def skipString : Text → Stream
  | [] => .failed
  | c :: rest =>
      if c = '\\' then
        match rest with
        | [] => .failed
        | _ :: rest => skipString rest
      else if c = '"' then .good rest
      else skipString rest

theorem stringBody_stream (n₀ : Char) (text : Text) : (stringBody n₀ text).2 = skipString text := by
  fun_induction stringBody n₀ text with
  | case1 => rfl
  | case2 => rfl
  | case3 n rest s is found ih =>
      rw [found] at ih
      simpa [skipString] using ih
  | case4 rest plain =>
      rw [skipString.eq_def]
      rfl
  | case5 c rest plain open_ s is found ih =>
      rw [found] at ih
      rw [skipString.eq_def]
      simpa [plain, open_] using ih

theorem skipString_reads (text : Text) : (Stream.good text).Reads (skipString text) := by
  fun_induction skipString text with
  | case1 => exact .failed _
  | case2 => exact .failed _
  | case3 n rest ih => exact (ih.cons n).cons '\\'
  | case4 rest plain => exact (Stream.Reads.refl _).cons '"'
  | case5 c rest plain open_ ih => exact ih.cons c

theorem skipString_size (text : Text) : (skipString text).size ≤ text.length := (skipString_reads text).size

theorem skipWs_reads (is : Stream) : is.Reads (skipWs is) := by
  cases is with
  | failed => exact .failed _
  | good text =>
      induction text with
      | nil => exact .failed _
      | cons c rest ih =>
          rw [skipWs, skipSpaces]
          split
          · exact ih.cons c
          · exact .refl _

theorem skipWs_cases (is : Stream) :
    skipWs is = .failed ∨ ∃ c rest, skipWs is = .good (c :: rest) ∧ rest.length < is.size := by
  cases is with
  | failed => exact .inl rfl
  | good text =>
      induction text with
      | nil => exact .inl rfl
      | cons c rest ih =>
          rw [skipWs, skipSpaces]
          split
          · rcases ih with failed | ⟨d, more, found, shorter⟩
            · exact .inl failed
            · exact .inr ⟨d, more, found, Nat.lt_succ_of_lt shorter⟩
          · exact .inr ⟨c, rest, rfl, Nat.lt_succ_self _⟩

/-! ## The array loop -/

/-- An array, read up to here with `c` read last, that runs out of text right behind a comma: the one
before an element, or one that stands where the element's quote should. -/
inductive CutBehindComma : Char → Stream → Prop
  | dry {is : Stream} (empty : skipWs is = .failed) : CutBehindComma ',' is
  | blank {c : Char} {is : Stream} {rest : Text} (comma : skipWs is = .good (',' :: rest))
      (empty : skipWs (skipString rest) = .failed) : CutBehindComma c is
  | next {c d : Char} {is : Stream} {rest more : Text} (element : skipWs is = .good (d :: rest))
      (inside : d ≠ ']') (comma : skipWs (skipString rest) = .good (',' :: more))
      (later : CutBehindComma ',' (.good more)) : CutBehindComma c is

variable (n₀ : Char)

theorem arrayBody_failed (c : Char) {is : Stream} (arr : List Text) (empty : skipWs is = .failed) :
    arrayBody n₀ (c, is, arr) =
      if c = ']' then .inr (.failed, arr)
      else if c ≠ ',' then .inr (.failed, arr ++ [[]])
      else .inl (c, .failed, arr ++ [[]]) := by
  by_cases close : c = ']'
  · simp [arrayBody, empty, close]
  · simp [arrayBody, empty, close]

theorem arrayBody_element (c : Char) {d : Char} {is : Stream} {rest : Text} (arr : List Text)
    (element : skipWs is = .good (d :: rest)) (inside : d ≠ ']') :
    arrayBody n₀ (c, is, arr) =
      let s := (stringBody n₀ rest).1
      let (c, is) := (skipWs (skipString rest)).get d
      if c = ']' then .inr (is.putback c, arr ++ [s])
      else if c ≠ ',' then .inr (is.putback c, arr ++ [s])
      else .inl (c, is, arr ++ [s]) := by
  rw [← stringBody_stream n₀]
  simp [arrayBody, element, inside]

theorem arrayLoop_dry (n : Nat) {is : Stream} (arr : List Text) (empty : skipWs is = .failed) :
    loop (arrayBody n₀) n (',', is, arr) = none := by
  induction n generalizing is arr with
  | zero => rfl
  | succ n ih =>
      rw [loop, arrayBody_failed n₀ ',' arr empty]
      exact ih _ rfl

theorem arrayLoop_cut {c : Char} {is : Stream} (cut : CutBehindComma c is) (n : Nat) (arr : List Text) :
    loop (arrayBody n₀) n (c, is, arr) = none := by
  induction cut generalizing n arr with
  | dry empty => exact arrayLoop_dry n₀ n arr empty
  | blank comma empty =>
      cases n with
      | zero => rfl
      | succ n =>
          rw [loop, arrayBody_element n₀ _ arr comma (by decide), empty]
          exact arrayLoop_dry n₀ n _ rfl
  | next element inside comma later ih =>
      cases n with
      | zero => rfl
      | succ n =>
          rw [loop, arrayBody_element n₀ _ arr element inside, comma]
          exact ih n _

theorem arrayLoop_ends {c : Char} {is : Stream} (whole : ¬ CutBehindComma c is) (arr : List Text) :
    ∃ r : Stream × List Text, loop (arrayBody n₀) (is.size + 1) (c, is, arr) = some r ∧
      r.1.size ≤ is.size := by
  generalize size : is.size = bound
  induction bound using Nat.strongRecOn generalizing c is arr with
  | ind bound ih =>
      subst size
      rcases skipWs_cases is with empty | ⟨d, rest, element, shorter⟩
      · have other : c ≠ ',' := by
          rintro rfl
          exact whole (.dry empty)
        rw [loop, arrayBody_failed n₀ c arr empty]
        by_cases close : c = ']'
        · exact ⟨(.failed, arr), by simp [close], Nat.zero_le _⟩
        · exact ⟨(.failed, arr ++ [[]]), by simp [close, other], Nat.zero_le _⟩
      · by_cases close : d = ']'
        · subst close
          refine ⟨(.good rest, arr), ?_, Nat.le_of_lt shorter⟩
          rw [loop]
          simp [arrayBody, element]
        · have behind := skipString_size rest
          rw [loop, arrayBody_element n₀ c arr element close]
          rcases skipWs_cases (skipString rest) with empty | ⟨e, more, found, fewer⟩
          · have other : d ≠ ',' := by
              rintro rfl
              exact whole (.blank element empty)
            refine ⟨(.failed, arr ++ [(stringBody n₀ rest).1]), ?_, Nat.zero_le _⟩
            simp [empty, close, other]
          · by_cases comma : e = ','
            · subst comma
              have later : ¬ CutBehindComma ',' (.good more) := fun cut => whole (.next element close found cut)
              have smaller : (Stream.good more).size < is.size := by
                rw [Stream.size_good]
                omega
              obtain ⟨r, done, size⟩ := ih _ smaller later (arr ++ [(stringBody n₀ rest).1]) rfl
              refine ⟨r, ?_, by omega⟩
              have enough : (Stream.good more).size + 1 ≤ is.size := smaller
              simpa [found] using loop_mono done enough
            · refine ⟨(.good (e :: more), arr ++ [(stringBody n₀ rest).1]), ?_, ?_⟩
              · simp [found, comma]
              · rw [Stream.size_good, List.length_cons]
                omega

/-! ## The loader -/

variable {δ : Type} (c₀ : Char) (stod : Text → Except StdException δ)

theorem tokenTail_reads (text : Text) : (Stream.good text).Reads (tokenTail text).2 := by
  induction text with
  | nil => exact .failed _
  | cons c rest ih =>
      rw [tokenTail]
      split
      · exact .refl _
      · exact ih.cons c

theorem parseString_reads (is : Stream) : is.Reads (parseString n₀ is).2 := by
  cases is with
  | failed => exact .failed _
  | good text =>
      cases text with
      | nil => exact .failed _
      | cons c rest =>
          rw [parseString_good, stringBody_stream]
          exact (skipString_reads rest).cons c

theorem readToken_reads (c : Char) (is : Stream) : is.Reads (readToken c is).2 := by
  cases is with
  | failed => exact .failed _
  | good rest => exact tokenTail_reads rest

theorem get_reads (is : Stream) (c : Char) :
    is.Reads (is.get c).2 ∧ is.Reads ((is.get c).2.putback (is.get c).1) := by
  cases is with
  | failed => exact ⟨.failed _, .failed _⟩
  | good text =>
      cases text with
      | nil => exact ⟨.failed _, .failed _⟩
      | cons d rest => exact ⟨(Stream.Reads.refl _).cons d, .refl _⟩

theorem skipWs_get_reads (is : Stream) (c : Char) :
    is.Reads ((skipWs is).get c).2 ∧ is.Reads (((skipWs is).get c).2.putback ((skipWs is).get c).1) :=
  ⟨(skipWs_reads is).trans (get_reads _ c).1, (skipWs_reads is).trans (get_reads _ c).2⟩

theorem parseValue_other {is : Stream} (other : ((skipWs is).get c₀).1 ≠ '[') :
    ∃ r : Except StdException (ConfigValue δ) × Stream,
      (∀ fuel, parseValue n₀ c₀ stod fuel is = some r) ∧ is.Reads r.2 := by
  have reads := skipWs_get_reads is c₀
  unfold parseValue
  generalize (skipWs is).get c₀ = first at other reads
  obtain ⟨c, next⟩ := first
  dsimp only at other reads ⊢
  by_cases quote : c = '"'
  · subst quote
    exact ⟨_, fun _ => rfl, reads.2.trans (parseString_reads n₀ _)⟩
  · by_cases brace : c = '{'
    · subst brace
      exact ⟨_, fun _ => rfl, reads.2⟩
    · refine ⟨(tokenValue stod (readToken c next).1, (readToken c next).2), fun _ => ?_,
        reads.1.trans (readToken_reads c next)⟩
      rw [if_neg quote, if_neg other, if_neg brace]

theorem parseValue_array {is next : Stream} (opens : (skipWs is).get c₀ = ('[', next)) (fuel : Nat) :
    parseValue n₀ c₀ stod fuel is = (loop (arrayBody n₀) fuel ('[', next, [])).map fun (is, arr) =>
      (arrayValue stod arr, is) := by
  simp [parseValue, opens]

theorem parseValue_ends {is : Stream}
    (whole : ∀ more, skipWs is = .good ('[' :: more) → ¬ CutBehindComma '[' (.good more)) :
    ∃ r : Except StdException (ConfigValue δ) × Stream,
      (∀ fuel > is.size, parseValue n₀ c₀ stod fuel is = some r) ∧ r.2.size ≤ is.size := by
  by_cases bracket : ((skipWs is).get c₀).1 = '['
  · have opens : (skipWs is).get c₀ = ('[', ((skipWs is).get c₀).2) := Prod.ext bracket rfl
    have uncut : ¬ CutBehindComma '[' ((skipWs is).get c₀).2 := by
      rcases skipWs_cases is with empty | ⟨d, rest, found, -⟩
      · rw [empty]
        rintro (_ | _ | _) <;> contradiction
      · rw [found] at bracket ⊢
        obtain rfl : d = '[' := bracket
        exact whole rest found
    obtain ⟨r, done, size⟩ := arrayLoop_ends n₀ uncut []
    have shorter := (skipWs_get_reads is c₀).1.size
    refine ⟨(arrayValue stod r.2, r.1), fun fuel enough => ?_, Nat.le_trans size shorter⟩
    rw [parseValue_array n₀ c₀ stod opens, loop_mono done (by omega)]
    rfl
  · obtain ⟨r, returned, reads⟩ := parseValue_other n₀ c₀ stod bracket
    exact ⟨r, fun fuel _ => returned fuel, reads.size⟩

theorem parseValue_cut {is : Stream} {more : Text} (opens : skipWs is = .good ('[' :: more))
    (cut : CutBehindComma '[' (.good more)) (fuel : Nat) : parseValue n₀ c₀ stod fuel is = none := by
  have bracket : (skipWs is).get c₀ = ('[', .good more) := by rw [opens, Stream.get_good]
  rw [parseValue_array n₀ c₀ stod bracket, arrayLoop_cut n₀ cut]
  rfl

theorem parseValue_agree {is : Stream} {f g : Nat} {r r' : Except StdException (ConfigValue δ) × Stream}
    (first : parseValue n₀ c₀ stod f is = some r) (second : parseValue n₀ c₀ stod g is = some r') :
    r = r' := by
  by_cases bracket : ((skipWs is).get c₀).1 = '['
  · have opens : (skipWs is).get c₀ = ('[', ((skipWs is).get c₀).2) := Prod.ext bracket rfl
    rw [parseValue_array n₀ c₀ stod opens] at first second
    obtain ⟨a, ended, rfl⟩ := Option.map_eq_some_iff.mp first
    obtain ⟨b, ended', rfl⟩ := Option.map_eq_some_iff.mp second
    rw [loop_agree ended ended']
  · obtain ⟨only, returned, -⟩ := parseValue_other n₀ c₀ stod bracket
    rw [returned] at first second
    exact Option.some.inj (first.symm.trans second)

/-- The text goes on with a key whose value is an array cut off behind a comma. -/
def OpensCutArray (is : Stream) : Prop :=
  ∃ rest value more, is = .good ('"' :: rest) ∧ skipWs (skipString rest) = .good (':' :: value) ∧
    skipWs (.good value) = .good ('[' :: more) ∧ CutBehindComma '[' (.good more)

namespace Loader

theorem skipWs_again (is : Stream) : skipWs (skipWs is) = skipWs is := by
  cases is with
  | failed => rfl
  | good text =>
      induction text with
      | nil => rfl
      | cons c rest ih =>
          by_cases space : isSpace c
          · simpa [skipWs, skipSpaces, space] using ih
          · simp [skipWs, skipSpaces, space]

theorem putback_get (is : Stream) (c : Char) :
    skipWs (((skipWs is).get c).2.putback ((skipWs is).get c).1) = skipWs is := by
  rcases skipWs_cases is with empty | ⟨d, rest, found, -⟩
  · simp [empty]
  · have again := skipWs_again is
    rw [found] at again
    simp [found, again]

def readValue (fuel : Nat) (s : Loader δ) (key : Text) (is : Stream) : Loader δ ⊕ Option (Loaded δ) :=
  match parseValue n₀ c₀ stod fuel is with
  | none => .inr none
  | some (.error e, _) => .inr (some ⟨s.root, some e⟩)
  | some (.ok v, is) =>
      .inl { s with stream := is, root := s.root.modify (.setKey key v) s.back, lastKey := key }

def valueStart (value : Text) : Stream :=
  ((skipWs (.good value)).get ':').2.putback ((skipWs (.good value)).get ':').1

theorem readMember_colon (fuel : Nat) {s : Loader δ} {rest value : Text}
    (quote : s.stream = .good ('"' :: rest)) (colon : skipWs (skipString rest) = .good (':' :: value)) :
    readMember n₀ c₀ stod fuel s = readValue n₀ c₀ stod fuel s (stringBody n₀ rest).1 (valueStart value) := by
  rw [← stringBody_stream n₀] at colon
  simp only [readMember, quote, parseString_good, colon, Stream.get_good, if_true]
  rfl

theorem readMember_other (fuel : Nat) {s : Loader δ} {rest : Text} (quote : s.stream = .good ('"' :: rest))
    (other : ((skipWs (skipString rest)).get '"').1 ≠ ':') :
    readMember n₀ c₀ stod fuel s = .inl { s with stream := ((skipWs (skipString rest)).get '"').2 } := by
  rw [← stringBody_stream n₀] at other ⊢
  simp only [readMember, quote, parseString_good, if_neg other]

theorem step_quote (fuel : Nat) {s : Loader δ} {rest : Text} (quote : s.stream = .good ('"' :: rest)) :
    step n₀ c₀ stod fuel s = readMember n₀ c₀ stod fuel s := by
  rw [step, quote]
  rfl

theorem step_cut {s : Loader δ} (cut : OpensCutArray s.stream) (fuel : Nat) :
    step n₀ c₀ stod fuel s = .inr none := by
  obtain ⟨rest, value, more, quote, colon, opens, cut⟩ := cut
  have again : skipWs (valueStart value) = .good ('[' :: more) := by
    rw [valueStart, putback_get, opens]
  rw [step_quote n₀ c₀ stod fuel quote, readMember_colon n₀ c₀ stod fuel quote colon, readValue,
    parseValue_cut n₀ c₀ stod again cut]

theorem step_space (fuel : Nat) {s : Loader δ} {c : Char} {rest : Text} (front : s.stream = .good (c :: rest))
    (space : isSpace c = true) : step n₀ c₀ stod fuel s = .inl { s with stream := .good rest } := by
  simp [step, front, space]

theorem step_open (fuel : Nat) {s : Loader δ} {rest : Text} (front : s.stream = .good ('{' :: rest)) :
    step n₀ c₀ stod fuel s = .inl { s.openBrace with stream := .good rest } := by
  simp [step, front, isSpace]

theorem step_close (fuel : Nat) {s : Loader δ} {rest : Text} (front : s.stream = .good ('}' :: rest)) :
    step n₀ c₀ stod fuel s = .inl { s.closeBrace with stream := .good rest } := by
  simp [step, front, isSpace]

theorem step_other (fuel : Nat) {s : Loader δ} {c : Char} {rest : Text} (front : s.stream = .good (c :: rest))
    (other : c ≠ '{' ∧ c ≠ '}' ∧ c ≠ '"') :
    step n₀ c₀ stod fuel s = .inl { s with stream := .good rest } := by
  simp [step, front, other]

theorem openBrace_root (s : Loader δ) : s.openBrace.root = s.root := by
  unfold openBrace
  dsimp only
  split
  · rfl
  · rfl

theorem step_plain {s : Loader δ} {c : Char} {rest : Text} (front : s.stream = .good (c :: rest))
    (plain : c ≠ '"') :
    ∃ next, next.stream = .good rest ∧ next.root = s.root ∧ ∀ fuel, step n₀ c₀ stod fuel s = .inl next := by
  by_cases opens : c = '{'
  · subst opens
    exact ⟨{ s.openBrace with stream := .good rest }, rfl, openBrace_root s, fun fuel => step_open n₀ c₀ stod fuel front⟩
  by_cases closes : c = '}'
  · subst closes
    exact ⟨{ s.closeBrace with stream := .good rest }, rfl, rfl, fun fuel => step_close n₀ c₀ stod fuel front⟩
  · exact ⟨{ s with stream := .good rest }, rfl, rfl, fun fuel => step_other n₀ c₀ stod fuel front ⟨opens, closes, plain⟩⟩

theorem readMember_ends {s : Loader δ} {rest : Text} (quote : s.stream = .good ('"' :: rest))
    (whole : ¬ OpensCutArray s.stream) :
    (∃ next : Loader δ, next.stream.size < s.stream.size ∧
      ∀ fuel > s.stream.size, readMember n₀ c₀ stod fuel s = .inl next) ∨
    ∃ result, ∀ fuel > s.stream.size, readMember n₀ c₀ stod fuel s = .inr (some result) := by
  have length : s.stream.size = rest.length + 1 := by
    rw [quote]
    rfl
  have behind := skipString_size rest
  rcases skipWs_cases (skipString rest) with empty | ⟨d, value, found, shorter⟩
  · refine .inl ⟨_, ?_, fun fuel _ => readMember_other n₀ c₀ stod fuel quote (by simp [empty])⟩
    simp [empty, length]
  by_cases colon : d = ':'
  · subst colon
    have size := (skipWs_get_reads (.good value) ':').2.size
    have uncut : ∀ more, skipWs (valueStart value) = .good ('[' :: more) →
        ¬ CutBehindComma '[' (.good more) := by
      intro more opens cut
      rw [valueStart, putback_get] at opens
      exact whole ⟨rest, value, more, quote, found, opens, cut⟩
    obtain ⟨r, returned, less⟩ := parseValue_ends n₀ c₀ stod uncut
    change (valueStart value).size ≤ value.length at size
    have value_read : ∀ fuel > s.stream.size, readMember n₀ c₀ stod fuel s =
        match r with
        | (.error e, _) => .inr (some ⟨s.root, some e⟩)
        | (.ok v, is) => .inl { s with
            stream := is
            root := s.root.modify (.setKey (stringBody n₀ rest).1 v) s.back
            lastKey := (stringBody n₀ rest).1 } := by
      intro fuel enough
      rw [readMember_colon n₀ c₀ stod fuel quote found, readValue, returned fuel (by omega)]
      cases r with
      | mk outcome is => cases outcome <;> rfl
    obtain ⟨outcome, is⟩ := r
    cases outcome with
    | error e => exact .inr ⟨_, value_read⟩
    | ok v =>
        refine .inl ⟨_, ?_, value_read⟩
        change is.size < _
        dsimp only at less
        omega
  · refine .inl ⟨_, ?_, fun fuel _ => readMember_other n₀ c₀ stod fuel quote (by simp [found, colon])⟩
    simp only [found, Stream.get_good, Stream.size_good]
    omega

theorem step_ends {s : Loader δ} (whole : ¬ OpensCutArray s.stream) :
    (∃ next : Loader δ, next.stream.size < s.stream.size ∧
      ∀ fuel > s.stream.size, step n₀ c₀ stod fuel s = .inl next) ∨
    ∃ result, ∀ fuel > s.stream.size, step n₀ c₀ stod fuel s = .inr (some result) := by
  cases stream : s.stream with
  | failed => exact .inr ⟨⟨s.root, none⟩, fun fuel _ => by simp [step, stream]⟩
  | good text =>
      cases text with
      | nil => exact .inr ⟨⟨s.root, none⟩, fun fuel _ => by simp [step, stream]⟩
      | cons c rest =>
          by_cases quote : c = '"'
          · subst quote
            simp only [step_quote n₀ c₀ stod _ stream]
            rw [← stream]
            exact readMember_ends n₀ c₀ stod stream whole
          · obtain ⟨next, less, -, stepped⟩ := step_plain n₀ c₀ stod stream quote
            exact .inl ⟨next, by rw [less]; exact Nat.lt_succ_self _, fun fuel _ => stepped fuel⟩

theorem step_agree {s next : Loader δ} {f : Nat} (stepped : step n₀ c₀ stod f s = .inl next) (g : Nat) :
    step n₀ c₀ stod g s = .inl next ∨ step n₀ c₀ stod g s = .inr none := by
  cases stream : s.stream with
  | failed => simp [step, stream] at stepped
  | good text =>
      cases text with
      | nil => simp [step, stream] at stepped
      | cons c rest =>
          by_cases quote : c = '"'
          · subst quote
            rw [step_quote n₀ c₀ stod _ stream] at stepped ⊢
            rcases skipWs_cases (skipString rest) with empty | ⟨d, value, found, -⟩
            · rw [readMember_other n₀ c₀ stod _ stream (by simp [empty])] at stepped ⊢
              exact .inl stepped
            by_cases colon : d = ':'
            · subst colon
              rw [readMember_colon n₀ c₀ stod _ stream found, readValue] at stepped ⊢
              cases second : parseValue n₀ c₀ stod g (valueStart value) with
              | none => exact .inr rfl
              | some r =>
                  cases first : parseValue n₀ c₀ stod f (valueStart value) with
                  | none =>
                      rw [first] at stepped
                      cases stepped
                  | some r' =>
                      rw [first, parseValue_agree n₀ c₀ stod first second] at stepped
                      exact .inl stepped
            · rw [readMember_other n₀ c₀ stod _ stream (by simp [found, colon])] at stepped ⊢
              exact .inl stepped
          · obtain ⟨only, -, -, always⟩ := step_plain n₀ c₀ stod stream quote
            rw [always] at stepped ⊢
            exact .inl stepped

def Reaches : Loader δ → Loader δ → Prop :=
  Relation.ReflTransGen fun s t => ∃ fuel, step n₀ c₀ stod fuel s = .inl t

theorem loop_ends {s : Loader δ} (whole : ∀ t, Reaches n₀ c₀ stod s t → ¬ OpensCutArray t.stream) :
    ∃ result, ∀ fuel n, s.stream.size < fuel → s.stream.size < n →
      loop (step n₀ c₀ stod fuel) n s = some (some result) := by
  generalize size : s.stream.size = bound
  induction bound using Nat.strongRecOn generalizing s with
  | ind bound ih =>
      subst size
      rcases step_ends n₀ c₀ stod (whole s .refl) with ⟨next, less, stepped⟩ | ⟨result, stopped⟩
      · have round := stepped (s.stream.size + 1) (Nat.lt_succ_self _)
        have later : ∀ t, Reaches n₀ c₀ stod next t → ¬ OpensCutArray t.stream :=
          fun t reached => whole t (.head ⟨_, round⟩ reached)
        obtain ⟨result, ended⟩ := ih _ less later rfl
        refine ⟨result, fun fuel n enough rounds => ?_⟩
        obtain ⟨n, rfl⟩ : ∃ k, n = k + 1 := ⟨n - 1, by omega⟩
        rw [loop, stepped fuel enough]
        exact ended fuel n (by omega) (by omega)
      · refine ⟨result, fun fuel n enough rounds => ?_⟩
        obtain ⟨n, rfl⟩ : ∃ k, n = k + 1 := ⟨n - 1, by omega⟩
        rw [loop, stopped fuel enough]

theorem loop_runs_on {s t : Loader δ} (reached : Reaches n₀ c₀ stod s t) (cut : OpensCutArray t.stream)
    (fuel n : Nat) : (loop (step n₀ c₀ stod fuel) n s).join = none := by
  induction reached using Relation.ReflTransGen.head_induction_on generalizing n with
  | refl =>
      cases n with
      | zero => rfl
      | succ n => rw [loop, step_cut n₀ c₀ stod cut]; rfl
  | head stepped _ ih =>
      obtain ⟨f, stepped⟩ := stepped
      cases n with
      | zero => rfl
      | succ n =>
          rw [loop]
          rcases step_agree n₀ c₀ stod stepped fuel with same | stuck
          · rw [same]
            exact ih n
          · rw [stuck]
            rfl

end Loader

theorem parseJsonStream_terminates_iff (text : Text) :
    (∃ fuel result, Config.parseJsonStream n₀ c₀ stod fuel text = some result) ↔
    ∀ s, Loader.Reaches n₀ c₀ stod { stream := .good text } s → ¬ OpensCutArray s.stream := by
  constructor
  · rintro ⟨fuel, result, ended⟩ s reached cut
    rw [Config.parseJsonStream, Loader.loop_runs_on n₀ c₀ stod reached cut] at ended
    cases ended
  · intro whole
    obtain ⟨result, ended⟩ := Loader.loop_ends n₀ c₀ stod whole
    have done := ended (text.length + 1) (text.length + 1) (Nat.lt_succ_self _) (Nat.lt_succ_self _)
    exact ⟨text.length + 1, result, by rw [Config.parseJsonStream, done]; rfl⟩

def cutArrayText : Text := ['{', '"', 'a', '"', ':', '[', '"', 'x', '"', ',']

theorem parseJsonStream_hangs_on_cut_array :
    ¬ ∃ fuel result, Config.parseJsonStream '\x00' '\x00' (fun _ => .ok ()) fuel cutArrayText = some result := by
  rintro ⟨fuel, result, ended⟩
  have reached : Loader.Reaches '\x00' '\x00' (fun _ => .ok ()) { stream := .good cutArrayText }
      { stream := .good cutArrayText.tail } := .single ⟨0, rfl⟩
  have cut : OpensCutArray (.good cutArrayText.tail) :=
    ⟨_, _, _, rfl, rfl, rfl, .next rfl (by decide) rfl (.dry rfl)⟩
  rw [Config.parseJsonStream, Loader.loop_runs_on _ _ _ reached cut] at ended
  cases ended

end ServerFramework.Base
