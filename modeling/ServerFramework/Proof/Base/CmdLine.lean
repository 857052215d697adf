import ServerFramework.Base.CmdLine
import ServerFramework.Library.Table

namespace ServerFramework.Base
open Library

namespace CmdLineParser

/-! ## What a command line says -/

/-- The token is an occurrence of the option: its long name behind two dashes or its letter behind one. -/
def Denotes (o : CmdLineArg) (token : Text) : Prop :=
  token = '-' :: '-' :: o.name ∨ (o.shortName ≠ '\x00' ∧ token = ['-', o.shortName])

inductive Kind
  | help
  | occurrence (name : Text)
  | value (name : Text)
  | rest
  deriving DecidableEq, Repr

def Kind.isValue : Kind → Bool
  | value _ => true
  | _ => false

inductive Reading (options : List CmdLineArg) : List CString → List (Text × Kind) → Prop
  | done : Reading options [] []
  | help {token tokens seen} (asks : isHelp token.1 = true) (more : Reading options tokens seen) :
      Reading options (token :: tokens) ((token.1, .help) :: seen)
  | unknown {token tokens seen} (other : isHelp token.1 = false) (none : ∀ o ∈ options, ¬ Denotes o token.1)
      (more : Reading options tokens seen) : Reading options (token :: tokens) ((token.1, .rest) :: seen)
  | flag {token tokens seen o} (other : isHelp token.1 = false) (member : o ∈ options) (denotes : Denotes o token.1)
      (plain : o.hasValue = false) (more : Reading options tokens seen) :
      Reading options (token :: tokens) ((token.1, .occurrence o.name) :: seen)
  | valued {token value tokens seen o} (other : isHelp token.1 = false) (member : o ∈ options)
      (denotes : Denotes o token.1) (takes : o.hasValue = true) (more : Reading options tokens seen) :
      Reading options (token :: value :: tokens) ((token.1, .occurrence o.name) :: (value.1, .value o.name) :: seen)
  | ended {token o} (other : isHelp token.1 = false) (member : o ∈ options) (denotes : Denotes o token.1)
      (takes : o.hasValue = true) : Reading options [token] [(token.1, .occurrence o.name)]

structure Distinct (options : List CmdLineArg) : Prop where
  names : (options.map CmdLineArg.name).Nodup
  named : ∀ o ∈ options, o.name ≠ []
  letters : options.Pairwise fun o o' => o.shortName ≠ '\x00' → o.shortName ≠ o'.shortName

theorem Distinct.same_name {options : List CmdLineArg} (distinct : Distinct options) {o o' : CmdLineArg}
    (member : o ∈ options) (member' : o' ∈ options) (same : o.name = o'.name) : o = o' :=
  List.inj_on_of_nodup_map distinct.names member member' same

theorem Distinct.same_letter {options : List CmdLineArg} (distinct : Distinct options) {o o' : CmdLineArg}
    (member : o ∈ options) (member' : o' ∈ options) (letter : o.shortName ≠ '\x00')
    (same : o.shortName = o'.shortName) : o = o' := by
  have either : options.Pairwise fun a b => a.shortName = b.shortName → a.shortName = '\x00' :=
    distinct.letters.imp fun apart equal => by_contra fun some => apart some equal
  have symmetric : Std.Symm fun a b : CmdLineArg => a.shortName = b.shortName → a.shortName = '\x00' :=
    ⟨fun a b holds equal => equal.trans (holds equal.symm)⟩
  by_contra different
  exact letter (either.forall member member' different same)

theorem Denotes.unique {options : List CmdLineArg} (distinct : Distinct options) {o o' : CmdLineArg} {token : Text}
    (member : o ∈ options) (member' : o' ∈ options) (denotes : Denotes o token) (denotes' : Denotes o' token) :
    o = o' := by
  rcases denotes with rfl | ⟨letter, rfl⟩
  · rcases denotes' with same | ⟨-, same⟩
    · exact distinct.same_name member member' (by simpa using same)
    · exact absurd (by simpa using same : _ ∧ o.name = []).2 (distinct.named o member)
  · rcases denotes' with same | ⟨-, same⟩
    · exact absurd (by simpa using same : _ ∧ [] = o'.name).2.symm (distinct.named o' member')
    · exact distinct.same_letter member member' letter (by simpa using same)

theorem reading_exists (options : List CmdLineArg) (tokens : List CString) :
    ∃ seen, Reading options tokens seen := by
  induction h : tokens.length using Nat.strong_induction_on generalizing tokens with
  | _ n ih =>
      subst h
      cases tokens with
      | nil => exact ⟨_, .done⟩
      | cons token tokens =>
          obtain ⟨seen, more⟩ := ih tokens.length (Nat.lt_succ_self _) tokens rfl
          cases asks : isHelp token.1 with
          | true => exact ⟨_, .help asks more⟩
          | false =>
              by_cases known : ∃ o ∈ options, Denotes o token.1
              · obtain ⟨o, member, denotes⟩ := known
                cases takes : o.hasValue with
                | false => exact ⟨_, .flag asks member denotes takes more⟩
                | true =>
                    cases tokens with
                    | nil => exact ⟨_, .ended asks member denotes takes⟩
                    | cons value tokens =>
                        obtain ⟨seen, more⟩ := ih tokens.length (by simp only [List.length_cons]; omega) tokens rfl
                        exact ⟨_, .valued asks member denotes takes more⟩
              · exact ⟨_, .unknown asks (fun o member denotes => known ⟨o, member, denotes⟩) more⟩

theorem Reading.unique {options : List CmdLineArg} (distinct : Distinct options) {tokens : List CString}
    {seen seen' : List (Text × Kind)} (reading : Reading options tokens seen) (reading' : Reading options tokens seen') :
    seen = seen' := by
  induction reading generalizing seen' with
  | done =>
      cases reading'
      rfl
  | help asks more ih =>
      cases reading' with
      | help _ more' => rw [ih more']
      | unknown other | flag other | valued other | ended other =>
          rw [asks] at other
          cases other
  | unknown other none more ih =>
      cases reading' with
      | help asks =>
          rw [asks] at other
          cases other
      | unknown _ _ more' => rw [ih more']
      | flag _ member denotes | valued _ member denotes | ended _ member denotes =>
          exact absurd denotes (none _ member)
  | flag other member denotes plain more ih =>
      cases reading' with
      | help asks =>
          rw [asks] at other
          cases other
      | unknown _ none => exact absurd denotes (none _ member)
      | flag _ member' denotes' _ more' => rw [ih more', Denotes.unique distinct member member' denotes denotes']
      | valued _ member' denotes' takes | ended _ member' denotes' takes =>
          rw [← Denotes.unique distinct member member' denotes denotes', plain] at takes
          cases takes
  | valued other member denotes takes more ih =>
      cases reading' with
      | help asks =>
          rw [asks] at other
          cases other
      | unknown _ none => exact absurd denotes (none _ member)
      | flag _ member' denotes' plain =>
          rw [← Denotes.unique distinct member member' denotes denotes', takes] at plain
          cases plain
      | valued _ member' denotes' _ more' => rw [ih more', Denotes.unique distinct member member' denotes denotes']
  | ended other member denotes takes =>
      cases reading' with
      | help asks =>
          rw [asks] at other
          cases other
      | unknown _ none => exact absurd denotes (none _ member)
      | flag _ member' denotes' plain =>
          rw [← Denotes.unique distinct member member' denotes denotes', takes] at plain
          cases plain
      | ended _ member' denotes' => rw [Denotes.unique distinct member member' denotes denotes']

/-! ## The table -/

structure Stands (options : List CmdLineArg) (parser : CmdLineParser) : Prop where
  offered : ∀ o ∈ options, (parser.args.lookup o.name).isSome
  known : ∀ key arg, parser.args.lookup key = some arg →
    ∃ o ∈ options, key = o.name ∧ arg.shortName = o.shortName ∧ arg.hasValue = o.hasValue

theorem Stands.push {options : List CmdLineArg} {parser : CmdLineParser} (stands : Stands options parser)
    (token : Text) : Stands options (parser.pushRest token) := ⟨stands.offered, stands.known⟩

theorem lookup_put (parser : CmdLineParser) (key k : Text) (arg : CmdLineArg) :
    (parser.put key arg).args.lookup k =
      if k = key then (parser.args.lookup k).map fun _ => arg else parser.args.lookup k :=
  lookup_replace k key arg parser.args

theorem Stands.put {options : List CmdLineArg} {parser : CmdLineParser} (stands : Stands options parser)
    {key : Text} {arg new : CmdLineArg} (here : parser.args.lookup key = some arg)
    (letter : new.shortName = arg.shortName) (value : new.hasValue = arg.hasValue) :
    Stands options (parser.put key new) where
  offered := by
    intro o member
    rw [lookup_put]
    split
    · rw [Option.isSome_map]
      exact stands.offered o member
    · exact stands.offered o member
  known := by
    intro k other found
    rw [lookup_put] at found
    split at found
    · rename_i same
      subst same
      rw [here] at found
      obtain rfl : new = other := Option.some.inj found
      rw [letter, value]
      exact stands.known k arg here
    · exact stands.known k other found

theorem find_lookup {parser : CmdLineParser} {token key : Text} {arg : CmdLineArg}
    (found : parser.find token = some ⟨key, arg⟩) : parser.args.lookup key = some arg := by
  rw [find] at found
  split at found
  · exact AList.mem_lookup_iff.mpr (List.mem_of_find?_eq_some found)
  · exact AList.mem_lookup_iff.mpr (List.mem_of_find?_eq_some found)

/-- The tokens the code takes for something else: the one dash, a letter with more behind it, the two dashes. -/
inductive Misread (options : List CmdLineArg) : Text → Prop
  | bare {o} (member : o ∈ options) (letterless : o.shortName = '\x00') : Misread options ['-']
  | bundle {o c more} (member : o ∈ options) (letter : o.shortName = c) (short : c ≠ '-') (longer : more ≠ []) :
      Misread options ('-' :: c :: more)
  | dashes {o} (member : o ∈ options) (letter : o.shortName = '-') : Misread options ['-', '-']

section Find

variable {options : List CmdLineArg} {parser : CmdLineParser} (stands : Stands options parser)
include stands

theorem Stands.find_denoted (distinct : Distinct options) {o : CmdLineArg} {token : Text} (member : o ∈ options)
    (denotes : Denotes o token) (clear : ¬ Misread options token) :
    charAt token 0 = '-' ∧ ∃ arg, parser.find token = some ⟨o.name, arg⟩ ∧ arg.hasValue = o.hasValue := by
  obtain ⟨arg, here⟩ := Option.isSome_iff_exists.mp (stands.offered o member)
  obtain ⟨o', member', name, letter, value⟩ := stands.known o.name arg here
  obtain rfl := distinct.same_name member member' name
  have entry : ⟨o.name, arg⟩ ∈ parser.args.entries := AList.mem_lookup_iff.mp here
  rcases denotes with rfl | ⟨given, rfl⟩
  · refine ⟨rfl, ?_⟩
    cases found : parser.find ('-' :: '-' :: o.name) with
    | none =>
        have missing := List.find?_eq_none.mp found _ entry
        simp [isOption] at missing
    | some other =>
        have matches' := List.find?_some found
        have same : other.1 = o.name := by simpa [isOption] using matches'
        have lookup := find_lookup found
        rw [same, here] at lookup
        obtain ⟨key, arg⟩ := other
        cases same
        cases lookup
        exact ⟨arg, rfl, value⟩
  · have single : o.shortName ≠ '-' := fun dash => clear (dash ▸ .dashes member dash)
    refine ⟨rfl, ?_⟩
    have route : parser.find ['-', o.shortName] = parser.args.entries.find? (isOption false [o.shortName]) :=
      if_neg single
    cases found : parser.find ['-', o.shortName] with
    | none =>
        rw [route] at found
        have missing := List.find?_eq_none.mp found _ entry
        simp [isOption, charAt, letter] at missing
    | some other =>
        have lookup := find_lookup found
        rw [route] at found
        have same : other.2.shortName = o.shortName := by simpa [isOption, charAt] using List.find?_some found
        obtain ⟨o', member', name', letter', -⟩ := stands.known _ _ lookup
        obtain rfl := distinct.same_letter member member' given (same.symm.trans letter')
        rw [name', here] at lookup
        obtain ⟨key, arg⟩ := other
        cases name'
        cases lookup
        exact ⟨arg, rfl, value⟩

theorem Stands.find_unknown {token : CString} (none : ∀ o ∈ options, ¬ Denotes o token.1)
    (clear : ¬ Misread options token.1) : charAt token.1 0 ≠ '-' ∨ parser.find token.1 = .none := by
  by_contra neither
  obtain ⟨dash, found⟩ := not_or.mp neither
  obtain ⟨⟨key, arg⟩, found⟩ := Option.ne_none_iff_exists'.mp found
  obtain ⟨o, member, rfl, letter, -⟩ := stands.known key arg (find_lookup found)
  obtain ⟨text, clean⟩ := token
  dsimp only at none clear dash found
  rw [find] at found
  cases text with
  | nil => simp [charAt] at dash
  | cons first tail =>
      obtain rfl : first = '-' := by simpa [charAt] using dash
      split at found
      · rename_i long
        have same := List.find?_some found
        cases tail with
        | nil => simp [charAt] at long
        | cons second name =>
            obtain rfl : second = '-' := by simpa [charAt] using long
            obtain rfl : o.name = name := by simpa [isOption] using same
            exact none o member (.inl rfl)
      · rename_i short
        have same : arg.shortName = charAt tail 0 := by simpa [isOption] using List.find?_some found
        rw [letter] at same
        cases tail with
        | nil => exact clear (.bare member same)
        | cons c more =>
            have equal : o.shortName = c := same
            cases more with
            | nil =>
                have nonzero : c ≠ '\x00' := fun zero => clean (by simp [zero])
                exact none o member (.inr ⟨equal ▸ nonzero, by rw [equal]⟩)
            | cons d more => exact clear (.bundle member equal short (List.cons_ne_nil d more))

end Find

/-! ## One token -/

section Token

variable {options : List CmdLineArg} {parser : CmdLineParser} {token : CString} (stands : Stands options parser)

theorem parseFrom_help (asks : isHelp token.1 = true) (tokens : List CString) :
    parseFrom (token :: tokens) parser = parseFrom tokens parser := by
  rw [parseFrom, if_pos asks]

theorem parseFrom_push (other : isHelp token.1 = false)
    (unfound : charAt token.1 0 ≠ '-' ∨ parser.find token.1 = none) (tokens : List CString) :
    parseFrom (token :: tokens) parser = parseFrom tokens (parser.pushRest token.1) := by
  rw [parseFrom, if_neg (by simp [other])]
  split
  · rename_i dash
    rw [unfound.resolve_left (not_not.mpr dash)]
  · rfl

include stands

theorem parseFrom_unknown (other : isHelp token.1 = false) (none : ∀ o ∈ options, ¬ Denotes o token.1)
    (clear : ¬ Misread options token.1) (tokens : List CString) :
    parseFrom (token :: tokens) parser = parseFrom tokens (parser.pushRest token.1) :=
  parseFrom_push other (stands.find_unknown none clear) tokens

variable {o : CmdLineArg} (distinct : Distinct options) (other : isHelp token.1 = false) (member : o ∈ options)
  (denotes : Denotes o token.1) (clear : ¬ Misread options token.1)
include distinct other member denotes clear

theorem parseFrom_flag (plain : o.hasValue = false) (tokens : List CString) :
    ∃ arg, parser.args.lookup o.name = some arg ∧
      parseFrom (token :: tokens) parser = parseFrom tokens (parser.put o.name { arg with found := true }) := by
  obtain ⟨dash, arg, found, value⟩ := stands.find_denoted distinct member denotes clear
  refine ⟨arg, find_lookup found, ?_⟩
  rw [parseFrom, if_neg (by simp [other]), if_pos dash, found]
  exact if_neg (by simp [value, plain])

theorem parseFrom_valued (takes : o.hasValue = true) (value : CString) (tokens : List CString) :
    ∃ arg, parser.args.lookup o.name = some arg ∧
      parseFrom (token :: value :: tokens) parser =
        parseFrom tokens (parser.put o.name { arg with found := true, value := value.1 }) := by
  obtain ⟨dash, arg, found, valued⟩ := stands.find_denoted distinct member denotes clear
  refine ⟨arg, find_lookup found, ?_⟩
  rw [parseFrom, if_neg (by simp [other]), if_pos dash, found]
  exact if_pos (by simp [valued, takes])

theorem parseFrom_ended (takes : o.hasValue = true) :
    ∃ arg, parser.args.lookup o.name = some arg ∧
      parseFrom [token] parser = parser.put o.name { arg with found := true } := by
  obtain ⟨dash, arg, found, valued⟩ := stands.find_denoted distinct member denotes clear
  refine ⟨arg, find_lookup found, ?_⟩
  rw [parseFrom, if_neg (by simp [other]), if_pos dash, found]
  exact if_pos (by simp [valued, takes])

end Token

/-! ## A clear command line -/

def restOf (seen : List (Text × Kind)) : List Text := (seen.filter fun entry => entry.2 = .rest).map Prod.fst

def valuesOf (name : Text) (seen : List (Text × Kind)) : List Text :=
  (seen.filter fun entry => entry.2 = .value name).map Prod.fst

def Occurs (name : Text) (seen : List (Text × Kind)) : Prop := ∃ token, (token, Kind.occurrence name) ∈ seen

structure Follows (options : List CmdLineArg) (seen : List (Text × Kind)) (parser : CmdLineParser) : Prop
    extends Stands options parser where
  rest : parser.rest = restOf seen
  found : ∀ o ∈ options, ∀ arg, parser.args.lookup o.name = some arg → (arg.found = true ↔ Occurs o.name seen)
  value : ∀ o ∈ options, ∀ arg, parser.args.lookup o.name = some arg →
    arg.value = (valuesOf o.name seen).getLastD o.value

section Follow

variable {options : List CmdLineArg} {seen : List (Text × Kind)} {parser : CmdLineParser}
  (follows : Follows options seen parser)
include follows

theorem Follows.help (token : Text) : Follows options (seen ++ [(token, .help)]) parser where
  toStands := follows.toStands
  rest := by simpa [restOf] using follows.rest
  found o member arg here := by simpa [Occurs] using follows.found o member arg here
  value o member arg here := by simpa [valuesOf] using follows.value o member arg here

theorem Follows.push (token : Text) : Follows options (seen ++ [(token, .rest)]) (parser.pushRest token) where
  toStands := follows.toStands.push token
  rest := by simp [restOf, pushRest, follows.rest]
  found o member arg here := by simpa [Occurs] using follows.found o member arg here
  value o member arg here := by simpa [valuesOf] using follows.value o member arg here

variable {name : Text} {arg : CmdLineArg} (here : parser.args.lookup name = some arg)
include here

omit follows in
theorem lookup_put_cases {new other : CmdLineArg} {key : Text}
    (found : (parser.put name new).args.lookup key = some other) :
    (key = name ∧ other = new) ∨ (key ≠ name ∧ parser.args.lookup key = some other) := by
  rw [lookup_put] at found
  split at found
  · rename_i same
    subst same
    rw [here] at found
    exact .inl ⟨rfl, (Option.some.inj found).symm⟩
  · rename_i different
    exact .inr ⟨different, found⟩

theorem Follows.mark (token : Text) :
    Follows options (seen ++ [(token, .occurrence name)]) (parser.put name { arg with found := true }) where
  toStands := follows.toStands.put here rfl rfl
  rest := by simpa [restOf, put] using follows.rest
  found := by
    intro o member other now
    rcases lookup_put_cases here now with ⟨rfl, rfl⟩ | ⟨different, before⟩
    · simp [Occurs]
    · simpa [Occurs, different] using follows.found o member other before
  value := by
    intro o member other now
    rcases lookup_put_cases here now with ⟨rfl, rfl⟩ | ⟨different, before⟩
    · simpa [valuesOf] using follows.value o member arg here
    · simpa [valuesOf] using follows.value o member other before

theorem Follows.take (token value : Text) :
    Follows options (seen ++ [(token, .occurrence name), (value, .value name)])
      (parser.put name { arg with found := true, value }) where
  toStands := follows.toStands.put here rfl rfl
  rest := by simpa [restOf, put] using follows.rest
  found := by
    intro o member other now
    rcases lookup_put_cases here now with ⟨rfl, rfl⟩ | ⟨different, before⟩
    · simp [Occurs]
    · simpa [Occurs, different] using follows.found o member other before
  value := by
    intro o member other now
    rcases lookup_put_cases here now with ⟨rfl, rfl⟩ | ⟨different, before⟩
    · simp [valuesOf]
    · simpa [valuesOf, Ne.symm different] using follows.value o member other before

end Follow

def Clear (options : List CmdLineArg) (seen : List (Text × Kind)) : Prop :=
  ∀ entry ∈ seen, entry.2.isValue = false → ¬ Misread options entry.1

theorem parseFrom_follows {options : List CmdLineArg} (distinct : Distinct options) {tokens : List CString}
    {before seen : List (Text × Kind)} {parser : CmdLineParser} (reading : Reading options tokens seen)
    (clear : Clear options seen) (follows : Follows options before parser) :
    Follows options (before ++ seen) (parseFrom tokens parser) := by
  induction reading generalizing before parser with
  | done =>
      rw [List.append_nil]
      exact follows
  | help asks more ih =>
      rw [parseFrom_help asks, List.append_cons]
      exact ih (fun entry among => clear entry (List.mem_cons_of_mem _ among)) (follows.help _)
  | unknown other none more ih =>
      have first := clear _ List.mem_cons_self rfl
      rw [parseFrom_unknown follows.toStands other none first, List.append_cons]
      exact ih (fun entry among => clear entry (List.mem_cons_of_mem _ among)) (follows.push _)
  | @flag token tokens seen o other member denotes plain more ih =>
      have first := clear _ List.mem_cons_self rfl
      obtain ⟨arg, here, run⟩ := parseFrom_flag follows.toStands distinct other member denotes first plain tokens
      rw [run, List.append_cons]
      exact ih (fun entry among => clear entry (List.mem_cons_of_mem _ among)) (follows.mark here _)
  | @valued token value tokens seen o other member denotes takes more ih =>
      have first := clear _ List.mem_cons_self rfl
      obtain ⟨arg, here, run⟩ :=
        parseFrom_valued follows.toStands distinct other member denotes first takes value tokens
      have apart : before ++ (token.1, Kind.occurrence o.name) :: (value.1, .value o.name) :: seen =
          before ++ [(token.1, .occurrence o.name), (value.1, .value o.name)] ++ seen := by simp
      rw [run, apart]
      refine ih (fun entry among => clear entry ?_) (follows.take here _ _)
      exact List.mem_cons_of_mem _ (List.mem_cons_of_mem _ among)
  | ended other member denotes takes =>
      have first := clear _ List.mem_cons_self rfl
      obtain ⟨arg, here, run⟩ := parseFrom_ended follows.toStands distinct other member denotes first takes
      rw [run]
      exact follows.mark here _

/-! ## A token that is misread -/

theorem parseFrom_grows {tokens : List CString} {parser : CmdLineParser} {text : Text} (among : text ∈ parser.rest) :
    text ∈ (parseFrom tokens parser).rest := by
  fun_induction parseFrom tokens parser with
  | case1 parser => exact among
  | case2 token tokens parser asks ih => exact ih among
  | case3 token tokens parser other dash unfound ih => exact ih (List.mem_append_left _ among)
  | case4 token parser other dash key arg found takes => exact among
  | case5 token parser other dash key arg found takes value tokens ih => exact ih among
  | case6 token tokens parser other dash key arg found takes ih => exact ih among
  | case7 token tokens parser other dash ih => exact ih (List.mem_append_left _ among)

theorem rest_unfound {options : List CmdLineArg} {tokens : List CString} {parser : CmdLineParser} {text : Text}
    (stands : Stands options parser) (among : text ∈ (parseFrom tokens parser).rest) :
    text ∈ parser.rest ∨ charAt text 0 ≠ '-' ∨ ∃ table, Stands options table ∧ table.find text = none := by
  fun_induction parseFrom tokens parser with
  | case1 parser => exact .inl among
  | case2 token tokens parser asks ih => exact ih stands among
  | case3 token tokens parser other dash unfound ih =>
      rcases ih (stands.push token.1) among with before | later
      · rcases List.mem_append.mp before with old | new
        · exact .inl old
        · rw [List.mem_singleton.mp new]
          exact .inr (.inr ⟨parser, stands, unfound⟩)
      · exact .inr later
  | case4 token parser other dash key arg found takes => exact .inl among
  | case5 token parser other dash key arg found takes value tokens ih =>
      exact ih (stands.put (find_lookup found) rfl rfl) among
  | case6 token tokens parser other dash key arg found takes ih =>
      exact ih (stands.put (find_lookup found) rfl rfl) among
  | case7 token tokens parser other plain ih =>
      rcases ih (stands.push token.1) among with before | later
      · rcases List.mem_append.mp before with old | new
        · exact .inl old
        · rw [List.mem_singleton.mp new]
          exact .inr (.inl plain)
      · exact .inr later

theorem Stands.find_letter {options : List CmdLineArg} {parser : CmdLineParser} (stands : Stands options parser)
    (distinct : Distinct options) {o : CmdLineArg} (member : o ∈ options) {tail : Text} (single : o.shortName ≠ '-')
    (letter : charAt tail 0 = o.shortName) : parser.find ('-' :: tail) ≠ none := by
  obtain ⟨arg, here⟩ := Option.isSome_iff_exists.mp (stands.offered o member)
  obtain ⟨o', member', name, letter', -⟩ := stands.known o.name arg here
  obtain rfl := distinct.same_name member member' name
  have short : charAt ('-' :: tail) 1 ≠ '-' := by
    change charAt tail 0 ≠ '-'
    rw [letter]
    exact single
  rw [find, if_neg short]
  intro unfound
  have missing := List.find?_eq_none.mp unfound ⟨o.name, arg⟩ (AList.mem_lookup_iff.mp here)
  simp [isOption, letter, letter'] at missing

theorem swallowed_not_rest {options : List CmdLineArg} (distinct : Distinct options) {tokens : List CString}
    {parser : CmdLineParser} (stands : Stands options parser) {text : Text} (misread : Misread options text)
    (single : text ≠ ['-', '-']) (absent : text ∉ parser.rest) : text ∉ (parseFrom tokens parser).rest := by
  intro among
  cases misread with
  | @bare o member letterless =>
      rcases rest_unfound stands among with old | plain | ⟨table, standing, unfound⟩
      · exact absent old
      · exact plain rfl
      · exact @Stands.find_letter _ _ standing distinct _ member [] (by simp [letterless]) letterless.symm unfound
  | @bundle o c more member letter short longer =>
      rcases rest_unfound stands among with old | plain | ⟨table, standing, unfound⟩
      · exact absent old
      · exact plain rfl
      · exact @Stands.find_letter _ _ standing distinct _ member (c :: more) (by rwa [letter]) letter.symm unfound
  | dashes => exact single rfl

theorem Stands.find_dashes {options : List CmdLineArg} {parser : CmdLineParser} (stands : Stands options parser)
    (distinct : Distinct options) : parser.find ['-', '-'] = none := by
  by_contra found
  obtain ⟨⟨key, arg⟩, found⟩ := Option.ne_none_iff_exists'.mp found
  obtain ⟨o, member, rfl, -⟩ := stands.known key arg (find_lookup found)
  have same : o.name = [] := by
    have matched := List.find?_some (show parser.args.entries.find? (isOption true []) = _ from found)
    simpa [isOption] using matched
  exact distinct.named o member same

theorem parseFrom_dashes {options : List CmdLineArg} (distinct : Distinct options) {token : CString}
    {parser : CmdLineParser} (stands : Stands options parser) (dashes : token.1 = ['-', '-']) (tokens : List CString) :
    ['-', '-'] ∈ (parseFrom (token :: tokens) parser).rest := by
  have unfound : parser.find token.1 = none := by
    rw [dashes]
    exact stands.find_dashes distinct
  rw [parseFrom_push (by rw [dashes]; rfl) (.inr unfound)]
  apply parseFrom_grows
  rw [pushRest, dashes]
  exact List.mem_append_right _ List.mem_cons_self

/-- With a dash for a letter the two dashes are an occurrence, but the code puts them to the rest. -/
theorem dashes_in_rest {options : List CmdLineArg} (distinct : Distinct options) {tokens : List CString}
    {seen : List (Text × Kind)} {parser : CmdLineParser} (reading : Reading options tokens seen)
    (only : ∀ entry ∈ seen, entry.2.isValue = false → Misread options entry.1 → entry.1 = ['-', '-'])
    (somewhere : ∃ entry ∈ seen, entry.2.isValue = false ∧ entry.1 = ['-', '-']) (stands : Stands options parser) :
    ['-', '-'] ∈ (parseFrom tokens parser).rest := by
  induction reading generalizing parser with
  | done => simp at somewhere
  | @help token tokens seen asks more ih =>
      by_cases dashes : token.1 = ['-', '-']
      · exact parseFrom_dashes distinct stands dashes tokens
      · rw [parseFrom_help asks]
        apply ih (fun entry among => only entry (List.mem_cons_of_mem _ among)) _ stands
        simpa [dashes] using somewhere
  | @unknown token tokens seen other none more ih =>
      by_cases dashes : token.1 = ['-', '-']
      · exact parseFrom_dashes distinct stands dashes tokens
      · have clear := fun misread => dashes (only _ List.mem_cons_self rfl misread)
        rw [parseFrom_unknown stands other none clear]
        apply ih (fun entry among => only entry (List.mem_cons_of_mem _ among)) _ (stands.push _)
        simpa [dashes] using somewhere
  | @flag token tokens seen o other member denotes plain more ih =>
      by_cases dashes : token.1 = ['-', '-']
      · exact parseFrom_dashes distinct stands dashes tokens
      · have clear := fun misread => dashes (only _ List.mem_cons_self rfl misread)
        obtain ⟨arg, here, run⟩ := parseFrom_flag stands distinct other member denotes clear plain tokens
        rw [run]
        apply ih
        · exact fun entry among => only entry (List.mem_cons_of_mem _ among)
        · simpa [dashes] using somewhere
        · exact stands.put here rfl rfl
  | @valued token value tokens seen o other member denotes takes more ih =>
      by_cases dashes : token.1 = ['-', '-']
      · exact parseFrom_dashes distinct stands dashes (value :: tokens)
      · have clear := fun misread => dashes (only _ List.mem_cons_self rfl misread)
        obtain ⟨arg, here, run⟩ := parseFrom_valued stands distinct other member denotes clear takes value tokens
        rw [run]
        apply ih
        · exact fun entry among => only entry (List.mem_cons_of_mem _ (List.mem_cons_of_mem _ among))
        · simpa [dashes, Kind.isValue] using somewhere
        · exact stands.put here rfl rfl
  | @ended token o other member denotes takes =>
      have dashes : token.1 = ['-', '-'] := by simpa [Kind.isValue] using somewhere
      exact parseFrom_dashes distinct stands dashes []

/-- What a kind says of its token, whatever stands before it. -/
def Kind.Fits (options : List CmdLineArg) (token : Text) : Kind → Prop
  | help => isHelp token = true
  | occurrence name => ∃ o ∈ options, o.name = name ∧ Denotes o token
  | value _ => True
  | rest => ∀ o ∈ options, ¬ Denotes o token

theorem Reading.fits {options : List CmdLineArg} {tokens : List CString} {seen : List (Text × Kind)}
    (reading : Reading options tokens seen) : ∀ entry ∈ seen, entry.2.Fits options entry.1 := by
  induction reading with
  | done => simp
  | help asks more ih => exact List.forall_mem_cons.mpr ⟨asks, ih⟩
  | unknown other none more ih => exact List.forall_mem_cons.mpr ⟨none, ih⟩
  | flag other member denotes plain more ih =>
      exact List.forall_mem_cons.mpr ⟨⟨_, member, rfl, denotes⟩, ih⟩
  | valued other member denotes takes more ih =>
      exact List.forall_mem_cons.mpr ⟨⟨_, member, rfl, denotes⟩, List.forall_mem_cons.mpr ⟨trivial, ih⟩⟩
  | ended other member denotes takes =>
      exact List.forall_mem_cons.mpr ⟨⟨_, member, rfl, denotes⟩, by simp⟩

theorem Misread.kind_rest {options : List CmdLineArg} {token : Text} {kind : Kind}
    (misread : Misread options token) (single : token ≠ ['-', '-']) (fits : kind.Fits options token)
    (itself : kind.isValue = false) : kind = .rest := by
  cases kind with
  | help =>
      exfalso
      cases misread with
      | bare => simp [Kind.Fits, isHelp] at fits
      | bundle member letter short longer => simp_all [Kind.Fits, isHelp]
      | dashes => exact single rfl
  | occurrence name =>
      exfalso
      obtain ⟨o, member, -, same | ⟨-, same⟩⟩ := fits
      · cases misread with
        | bare => simp at same
        | bundle member letter short longer =>
            simp only [List.cons.injEq, true_and] at same
            exact short same.1
        | dashes => exact single rfl
      · cases misread with
        | bare => simp at same
        | bundle member letter short longer =>
            simp only [List.cons.injEq, true_and] at same
            exact longer same.2
        | dashes => exact single rfl
  | value name => cases itself
  | rest => rfl

theorem mem_restOf {token : Text} {seen : List (Text × Kind)} : token ∈ restOf seen ↔ (token, Kind.rest) ∈ seen := by
  simp [restOf]

/-! ## Whole command lines -/

def register (parser : CmdLineParser) (o : CmdLineArg) : CmdLineParser :=
  parser.add o.name o.shortName o.hasValue o.description o.value

def parserOf (options : List CmdLineArg) : CmdLineParser := options.foldl register {}

structure Tells (options : List CmdLineArg) (seen : List (Text × Kind)) (parser : CmdLineParser) : Prop where
  rest : parser.rest = restOf seen
  has : ∀ name, parser.has name = true ↔ Occurs name seen
  get : ∀ o ∈ options, parser.get o.name = (valuesOf o.name seen).getLastD o.value
  getOr : ∀ o ∈ options, ∀ defaultVal,
    (Occurs o.name seen → parser.getOr o.name defaultVal = (valuesOf o.name seen).getLastD o.value) ∧
    (¬ Occurs o.name seen → parser.getOr o.name defaultVal = defaultVal)

theorem lookup_register {options : List CmdLineArg} (names : (options.map CmdLineArg.name).Nodup)
    (parser : CmdLineParser) :
    (∀ o ∈ options, (options.foldl register parser).args.lookup o.name = some { o with found := false }) ∧
    ∀ key, (∀ o ∈ options, o.name ≠ key) → (options.foldl register parser).args.lookup key = parser.args.lookup key := by
  induction options generalizing parser with
  | nil => simp
  | cons o options ih =>
      obtain ⟨unused, rest⟩ := List.nodup_cons.mp names
      obtain ⟨inside, outside⟩ := ih rest (parser.register o)
      have fresh : ∀ o' ∈ options, o'.name ≠ o.name := fun o' member same =>
        unused (same ▸ List.mem_map_of_mem member)
      constructor
      · intro o' member
        rcases List.mem_cons.mp member with rfl | member
        · rw [List.foldl_cons, outside o'.name fresh]
          exact AList.lookup_insert _
        · exact inside o' member
      · intro key others
        rw [List.foldl_cons, outside key fun o' member => others o' (List.mem_cons_of_mem _ member)]
        exact AList.lookup_insert_ne (others o List.mem_cons_self).symm

theorem Follows.start {options : List CmdLineArg} (distinct : Distinct options) {parser : CmdLineParser}
    (order : parser.args.entries.Perm (parserOf options).args.entries) (fresh : parser.rest = []) :
    Follows options [] parser := by
  obtain ⟨inside, outside⟩ := lookup_register distinct.names {}
  change ∀ o ∈ options, (parserOf options).args.lookup o.name = _ at inside
  change ∀ key, _ → (parserOf options).args.lookup key = _ at outside
  have lookup : ∀ key, parser.args.lookup key = (parserOf options).args.lookup key := fun key =>
    AList.perm_lookup order
  exact
    { offered := fun o member => by
        rw [lookup, inside o member]
        rfl
      known := fun key arg here => by
        rw [lookup] at here
        by_cases named : ∃ o ∈ options, o.name = key
        · obtain ⟨o, member, rfl⟩ := named
          rw [inside o member] at here
          cases here
          exact ⟨o, member, rfl, rfl, rfl⟩
        · rw [outside key fun o member same => named ⟨o, member, same⟩] at here
          cases here
      rest := fresh
      found := fun o member arg here => by
        rw [lookup, inside o member] at here
        cases here
        simp [Occurs]
      value := fun o member arg here => by
        rw [lookup, inside o member] at here
        cases here
        rfl }

theorem Follows.tells {options : List CmdLineArg} {tokens : List CString} {seen : List (Text × Kind)}
    {parser : CmdLineParser} (follows : Follows options seen parser) (reading : Reading options tokens seen) :
    Tells options seen parser where
  rest := follows.rest
  has := by
    intro name
    cases here : parser.args.lookup name with
    | none =>
        have unseen : ¬ Occurs name seen := by
          rintro ⟨token, among⟩
          obtain ⟨o, member, rfl, -⟩ := reading.fits _ among
          have offered := follows.offered o member
          rw [here] at offered
          cases offered
        simp [CmdLineParser.has, here, unseen]
    | some arg =>
        obtain ⟨o, member, rfl, -⟩ := follows.known name arg here
        rw [CmdLineParser.has, here, ← follows.found o member arg here]
        rfl
  get := by
    intro o member
    obtain ⟨arg, here⟩ := Option.isSome_iff_exists.mp (follows.offered o member)
    rw [CmdLineParser.get, here, ← follows.value o member arg here]
    rfl
  getOr := by
    intro o member defaultVal
    obtain ⟨arg, here⟩ := Option.isSome_iff_exists.mp (follows.offered o member)
    rw [CmdLineParser.getOr, here, ← follows.value o member arg here, ← follows.found o member arg here]
    exact ⟨fun found => if_pos found, fun missing => if_neg missing⟩

theorem clear_of_tells {options : List CmdLineArg} (distinct : Distinct options) {tokens : List CString}
    {seen : List (Text × Kind)} {parser : CmdLineParser} (reading : Reading options tokens seen)
    (stands : Stands options parser) (fresh : parser.rest = [])
    (rest : (parseFrom tokens parser).rest = restOf seen) : Clear options seen := by
  have only : ∀ entry ∈ seen, entry.2.isValue = false → Misread options entry.1 → entry.1 = ['-', '-'] := by
    intro entry among itself misread
    by_contra single
    have kind := misread.kind_rest single (reading.fits entry among) itself
    apply swallowed_not_rest distinct stands misread single (by simp [fresh])
    rw [rest, mem_restOf, ← kind]
    exact among
  intro entry among itself misread
  have dashes := only entry among itself misread
  have there := dashes_in_rest distinct reading only ⟨entry, among, itself, dashes⟩ stands
  rw [rest, mem_restOf] at there
  have unknown := reading.fits _ there
  rw [dashes] at misread
  cases misread with
  | bundle member letter short longer => exact short rfl
  | @dashes o member letter => exact unknown o member (.inr ⟨by simp [letter], by rw [letter]⟩)

theorem parse_partitions_iff (options : List CmdLineArg) (distinct : Distinct options) (parser : CmdLineParser)
    (order : parser.args.entries.Perm (parserOf options).args.entries) (fresh : parser.rest = [])
    (argv : List CString) :
    ∃ seen, Reading options argv.tail seen ∧ (∀ seen', Reading options argv.tail seen' → seen' = seen) ∧
      (Tells options seen (parser.parse argv).2 ↔ Clear options seen) := by
  obtain ⟨seen, reading⟩ := reading_exists options argv.tail
  have start := Follows.start distinct order fresh
  refine ⟨seen, reading, fun seen' reading' => reading'.unique distinct reading, ?_⟩
  constructor
  · intro tells
    exact clear_of_tells distinct reading start.toStands fresh tells.rest
  · intro clear
    have follows := parseFrom_follows distinct reading clear start
    rw [List.nil_append] at follows
    exact follows.tells reading

def outputOption : CmdLineArg := { name := ['o', 'u', 't'], shortName := 'o', hasValue := true, value := ['-'] }

def quietOption : CmdLineArg := { name := ['q', 'u', 'i', 'e', 't'] }

theorem distinct_options : Distinct [outputOption, quietOption] where
  names := by decide
  named := by decide
  letters := by decide

theorem parse_partitions_options :
    Tells [outputOption, quietOption] [(['-', 'o'], .occurrence ['o', 'u', 't']), (['-'], .value ['o', 'u', 't'])]
      ((parserOf [outputOption, quietOption]).parse
        [⟨['x'], by decide⟩, ⟨['-', 'o'], by decide⟩, ⟨['-'], by decide⟩]).2 := by
  obtain ⟨seen, -, unique, iff⟩ :=
    parse_partitions_iff [outputOption, quietOption] distinct_options (parserOf [outputOption, quietOption]) (.refl _)
      rfl [⟨['x'], by decide⟩, ⟨['-', 'o'], by decide⟩, ⟨['-'], by decide⟩]
  obtain rfl := unique _ (.valued rfl List.mem_cons_self (.inr ⟨by decide, rfl⟩) rfl .done)
  apply iff.mpr
  intro entry among itself misread
  rcases List.mem_cons.mp among with rfl | among
  · cases misread with
    | bundle member letter short longer => exact longer rfl
  · rw [List.mem_singleton.mp among] at itself
    cases itself

/-- The dash is taken for the option without a letter, and what follows `-o` for nothing at all. -/
theorem lone_dash_is_option :
    (∀ seen, Reading [quietOption] [⟨['-'], by decide⟩] seen →
      ¬ Tells [quietOption] seen ((parserOf [quietOption]).parse [⟨['x'], by decide⟩, ⟨['-'], by decide⟩]).2) ∧
    ∀ seen, Reading [outputOption] [⟨['-', 'o', 'x'], by decide⟩] seen →
      ¬ Tells [outputOption] seen ((parserOf [outputOption]).parse [⟨['x'], by decide⟩, ⟨['-', 'o', 'x'], by decide⟩]).2 := by
  constructor
  · intro seen reading tells
    have rest := tells.rest
    cases reading with
    | help asks => cases asks
    | unknown other none more =>
        cases more
        cases rest
    | flag other member denotes => simp [Denotes, List.mem_singleton.mp member, quietOption] at denotes
    | ended other member denotes => simp [Denotes, List.mem_singleton.mp member, quietOption] at denotes
  · intro seen reading tells
    have rest := tells.rest
    cases reading with
    | help asks => cases asks
    | unknown other none more =>
        cases more
        cases rest
    | flag other member denotes => simp [Denotes, List.mem_singleton.mp member, outputOption] at denotes
    | ended other member denotes => simp [Denotes, List.mem_singleton.mp member, outputOption] at denotes

end CmdLineParser

end ServerFramework.Base
