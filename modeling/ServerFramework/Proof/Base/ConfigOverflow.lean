import ServerFramework.Proof.Base.ConfigLoad

namespace ServerFramework.Base
open Library JsonParser

variable (n₀ : Char) {δ : Type} (c₀ : Char) (stod : Text → Except StdException δ)

theorem Json.Fitting.find {tree : Json} (fitting : tree.Fitting) {path : List Text} {below : Json}
    (found : tree.find path = some below) : below.Fitting := by
  induction path generalizing tree with
  | nil =>
      rw [Json.find.eq_def] at found
      cases found
      exact fitting
  | cons key path ih =>
      cases tree with
      | object members =>
          obtain ⟨member, here, later⟩ := Option.bind_eq_some_iff.mp found
          obtain ⟨_, _, rfl, -⟩ := List.lookup_eq_some_iff.mp here
          exact ih (fitting.members (key, member) (by simp)) later
      | _ => cases found

/-! ## The loader in front of an integer that is too large -/

namespace Loader

variable {ι : Type} (fuels : ι → Nat)

/-- The loader comes to a value at which `out_of_range` is thrown. -/
def Fails (s : Loader δ) : Prop :=
  ∃ t root, Goes (fun i => step n₀ c₀ stod (fuels i)) s t ∧
    ∀ i, step n₀ c₀ stod (fuels i) t = .inr (some ⟨root, some .outOfRange⟩)

theorem Fails.of_goes {s t : Loader δ} (goes : Goes (fun i => step n₀ c₀ stod (fuels i)) s t)
    (fails : Fails n₀ c₀ stod fuels t) : Fails n₀ c₀ stod fuels s := by
  obtain ⟨u, root, on, thrown⟩ := fails
  exact ⟨u, root, goes.trans on, thrown⟩

/-- Reading `text` as the value of a key throws, at once or behind what `parse_value` makes of it. -/
def FailsValue (text : Text) : Prop :=
  ∀ ⦃is : Stream⦄ ⦃d : Char⦄ ⦃rest : Text⦄, isDelimiter d = true → skipWs is = .good (text ++ d :: rest) →
    (∃ after, ∀ i, parseValue n₀ c₀ stod (fuels i) is = some (.error .outOfRange, after)) ∨
    ∃ v after, (∀ i, parseValue n₀ c₀ stod (fuels i) is = some (.ok v, after)) ∧
      ∀ place : Place δ, Fails n₀ c₀ stod fuels (place.on after)

def FailsInside (text : Text) : Prop :=
  ∀ (d : Char) (rest : Text) (place : Place δ), d = ',' ∨ d = '}' →
    Fails n₀ c₀ stod fuels (place.on (.good (text ++ d :: rest)))

theorem tokenValue_overflow {text : Text} {i : Int} (numeral : Numeral text i) (large : ¬ Fits 64 i) :
    tokenValue stod text = .error .outOfRange := by
  have parsed : stoll text = .error .outOfRange := by
    rw [stoll, stringToInt, strtol_numeral numeral]
    exact if_neg large
  obtain ⟨c, tail, rfl, start, decimal⟩ := numeral.shape
  have first := (numeral_start start).2
  have point : '.' ∉ c :: tail := by
    intro member
    rcases List.mem_cons.mp member with rfl | inside
    · simp at first
    · exact absurd (decimal '.' inside) (by decide)
  simp only [List.mem_cons, not_or] at first
  simp only [tokenValue, List.cons.injEq, first, false_and, if_false, point, parsed]
  rfl

theorem failsValue_numeral {text : Text} {i : Int} (numeral : Numeral text i) (large : ¬ Fits 64 i) :
    FailsValue n₀ c₀ stod fuels text := by
  intro is d rest delimiter front
  have thrown := tokenValue_overflow stod numeral large
  obtain ⟨c, tail, rfl, start, decimal⟩ := numeral.shape
  have first := (numeral_start start).2
  simp only [List.mem_cons, not_or] at first
  have inside : ∀ e ∈ tail, isDelimiter e = false := fun e member => (digit_plain (decimal e member)).2.1
  refine .inl ⟨.good (d :: rest), fun i => ?_⟩
  rw [parseValue_token n₀ c₀ stod (fuels i) front ⟨first.1, first.2.1, first.2.2.1⟩ inside delimiter, thrown]

theorem failsValue_object {text : Text} (inside : FailsInside n₀ c₀ stod fuels text) :
    FailsValue n₀ c₀ stod fuels ('{' :: (text ++ ['}'])) := by
  intro is d rest delimiter front
  have opened : skipWs is = .good ('{' :: (text ++ '}' :: d :: rest)) := by simpa using front
  refine .inr ⟨_, _, fun i => parseValue_brace n₀ c₀ stod (fuels i) opened, fun place => ?_⟩
  have enter : Goes (fun i => step n₀ c₀ stod (fuels i)) (place.on (.good ('{' :: (text ++ '}' :: d :: rest))))
      (place.openBrace.on (.good (text ++ '}' :: d :: rest))) := by
    apply Goes.one
    intro i
    rw [step_open n₀ c₀ stod (fuels i) rfl, place.on_openBrace]
    rfl
  exact Fails.of_goes n₀ c₀ stod fuels enter (inside '}' (d :: rest) place.openBrace (.inr rfl))

theorem failsInside_member {b₁ b₂ b₃ b₄ spelling text key : Text} (space₁ : Blank b₁) (space₂ : Blank b₂)
    (space₃ : Blank b₃) (space₄ : Blank b₄) (spelled : Spells spelling key)
    (visible : ∃ c body, text = c :: body ∧ isSpace c = false) (fails : FailsValue n₀ c₀ stod fuels text) :
    FailsInside n₀ c₀ stod fuels (b₁ ++ '"' :: (spelling ++ '"' :: (b₂ ++ ':' :: (b₃ ++ (text ++ b₄))))) := by
  intro d rest place stop
  obtain ⟨e, more, behind, delimiter⟩ : ∃ e more, b₄ ++ d :: rest = e :: more ∧ isDelimiter e = true := by
    cases b₄ with
    | nil => exact ⟨d, rest, rfl, by rcases stop with rfl | rfl <;> rfl⟩
    | cons e b₄ => exact ⟨e, b₄ ++ d :: rest, rfl, by simp [isDelimiter, space₄ e (by simp)]⟩
  obtain ⟨c, body, rfl, visible⟩ := visible
  have colon : skipWs (skipString (spelling ++ '"' :: (b₂ ++ ':' :: (b₃ ++ (c :: body ++ e :: more))))) =
      .good (':' :: (b₃ ++ (c :: body ++ e :: more))) := by
    rw [skipString_spells spelled, skipWs_blank space₂ _ rfl]
  have front : skipWs (valueStart (b₃ ++ (c :: body ++ e :: more))) = .good (c :: body ++ e :: more) := by
    rw [valueStart, putback_get, List.cons_append, skipWs_blank space₃ _ visible]
  have before := goes_spaces n₀ c₀ stod fuels space₁
    ('"' :: (spelling ++ '"' :: (b₂ ++ ':' :: (b₃ ++ (c :: body ++ e :: more))))) place
  have whole : b₁ ++ '"' :: (spelling ++ '"' :: (b₂ ++ ':' :: (b₃ ++ (c :: body ++ b₄)))) ++ d :: rest =
      b₁ ++ '"' :: (spelling ++ '"' :: (b₂ ++ ':' :: (b₃ ++ (c :: body ++ e :: more)))) := by
    simp [← behind]
  rw [whole]
  refine Fails.of_goes n₀ c₀ stod fuels before ?_
  rcases fails delimiter front with ⟨after, thrown⟩ | ⟨v, after, parsed, later⟩
  · refine ⟨_, place.root, .refl, fun i => ?_⟩
    rw [step_quote n₀ c₀ stod (fuels i) rfl, readMember_colon n₀ c₀ stod (fuels i) rfl colon, readValue, thrown i]
    rfl
  · refine Fails.of_goes n₀ c₀ stod fuels (Goes.one fun i => ?_) (later (place.setMember key v))
    rw [step_quote n₀ c₀ stod (fuels i) rfl, readMember_colon n₀ c₀ stod (fuels i) rfl colon, readValue, parsed i,
      stringBody_spells n₀ spelled]
    rfl

theorem failsInside_first {text rest : Text} (fails : FailsInside n₀ c₀ stod fuels text) :
    FailsInside n₀ c₀ stod fuels (text ++ ',' :: rest) := by
  intro d tail place stop
  rw [List.append_assoc]
  exact fails ',' (rest ++ d :: tail) place (.inl rfl)

theorem failsInside_behind {text rest : Text} {f : Place δ → Place δ} (first : ReadsInside n₀ c₀ stod fuels text f)
    (fails : FailsInside n₀ c₀ stod fuels rest) : FailsInside n₀ c₀ stod fuels (text ++ ',' :: rest) := by
  intro d tail place stop
  have read := first ',' (rest ++ d :: tail) place (.inl rfl)
  have comma : Goes (fun i => step n₀ c₀ stod (fuels i)) ((f place).on (.good (',' :: (rest ++ d :: tail))))
      ((f place).on (.good (rest ++ d :: tail))) :=
    Goes.one fun i => step_other n₀ c₀ stod (fuels i) rfl (by decide)
  rw [List.append_assoc]
  exact Fails.of_goes n₀ c₀ stod fuels (read.trans comma) (fails d tail (f place) stop)

-- By induction on the text's derivation, up to the first integer that does not fit.
mutual

theorem failsValue_of_renders {text : Text} {tree : Json} (large : ¬ tree.Fitting) :
    Renders text tree → FailsValue n₀ c₀ stod fuels text
  | .null => absurd .null large
  | .trueToken => absurd (.bool true) large
  | .falseToken => absurd (.bool false) large
  | .int numeral => failsValue_numeral n₀ c₀ stod fuels numeral fun fits => large (.int fits)
  | .string spelled => absurd (.string _) large
  | .empty space => absurd (.object fun _ none_left => absurd none_left List.not_mem_nil) large
  | .object rendered =>
      failsValue_object n₀ c₀ stod fuels (failsInside_of_members (fun below => large (.object below)) rendered)

theorem failsInside_of_member {text : Text} {member : Text × Json} (large : ¬ member.2.Fitting) :
    RendersMember text member → FailsInside n₀ c₀ stod fuels text
  | .mk space₁ space₂ space₃ space₄ spelled rendered =>
      failsInside_member n₀ c₀ stod fuels space₁ space₂ space₃ space₄ spelled rendered.start
        (failsValue_of_renders large rendered)

theorem failsInside_of_members {text : Text} {members : List (Text × Json)} (large : ¬ ∀ m ∈ members, m.2.Fitting) :
    RendersMembers text members → FailsInside n₀ c₀ stod fuels text
  | .last rendered => by
      refine failsInside_of_member (fun fits => large fun m among => ?_) rendered
      rwa [List.mem_singleton.mp among]
  | @RendersMembers.more text rest member members rendered others => by
      by_cases fits : member.2.Fitting
      · have first := readsInside_of_member n₀ c₀ stod fuels (rendered.writes stod fits)
        refine failsInside_behind n₀ c₀ stod fuels first (failsInside_of_members (fun behind => large fun m among => ?_) others)
        rcases List.mem_cons.mp among with rfl | later
        · exact fits
        · exact behind m later
      · exact failsInside_first n₀ c₀ stod fuels (failsInside_of_member fits rendered)

end

end Loader

/-- `out_of_range` leaves `parse_json_stream`. -/
def Overflows (text : Text) : Prop :=
  ∃ n root, ∀ fuel ≥ n, Config.parseJsonStream n₀ c₀ stod fuel text = some ⟨root, some .outOfRange⟩

theorem overflows_of_fails {text : Text}
    (fails : Loader.Fails n₀ c₀ stod id (({} : Place δ).on (.good text))) : Overflows n₀ c₀ stod text := by
  obtain ⟨t, root, goes, thrown⟩ := fails
  obtain ⟨n, rounds⟩ := goes.loop
  refine ⟨n + 1, root, fun fuel enough => ?_⟩
  obtain ⟨more, rfl⟩ : ∃ more, fuel = n + (more + 1) := ⟨fuel - n - 1, by omega⟩
  have same := rounds (n + (more + 1)) (more + 1)
  rw [Config.parseJsonStream]
  change (loop (Loader.step n₀ c₀ stod (n + (more + 1))) (n + (more + 1)) (({} : Place δ).on (.good text))).join = _
  have last := thrown (n + (more + 1))
  simp only [id_eq] at same last
  rw [same, loop, last]
  rfl

theorem overflows_of_renders {text : Text} {members : List (Text × Json)} (rendered : RendersText text (.object members))
    (large : ¬ (Json.object members).Fitting) : Overflows n₀ c₀ stod text := by
  obtain ⟨before, body, behind, space, space', rendered, rfl⟩ := rendered
  have start := Loader.goes_spaces n₀ c₀ stod id space (body ++ behind) {}
  refine overflows_of_fails n₀ c₀ stod (Loader.Fails.of_goes n₀ c₀ stod id start ?_)
  cases rendered with
  | empty space => exact absurd (.object fun _ none_left => absurd none_left List.not_mem_nil) large
  | @object text _ rendered =>
      have inside := Loader.failsInside_of_members n₀ c₀ stod id (fun below => large (.object below)) rendered
      have opened := goes_open n₀ c₀ stod id (text ++ '}' :: behind)
      have whole : '{' :: (text ++ ['}']) ++ behind = '{' :: (text ++ '}' :: behind) := by simp
      rw [whole]
      exact Loader.Fails.of_goes n₀ c₀ stod id opened (inside '}' behind {} (.inr rfl))

/-- Every document of objects, strings, booleans, nulls and integers is loaded if its integers fit into an `int64_t`,
and otherwise an exception leaves the loader. -/
theorem loads_or_overflows {text : Text} {members : List (Text × Json)}
    (rendered : RendersText text (.object members)) :
    ((Json.object members).Fitting → ∃ root, Loads n₀ c₀ stod text root) ∧
    (¬ (Json.object members).Fitting → Overflows n₀ c₀ stod text) := by
  refine ⟨fun fitting => ?_, overflows_of_renders n₀ c₀ stod rendered⟩
  obtain ⟨before, body, behind, space, space', rendered, rfl⟩ := rendered
  obtain ⟨inside, rfl, reads⟩ := rendered.inside n₀ c₀ stod (fun fuel : { fuel // 0 ≤ fuel } => fuel.1) fitting
  exact ⟨_, loads_inside n₀ c₀ stod reads space space'⟩

-- `{"a":9223372036854775808}`
def overflowDigits : Text := Nat.toDigits 10 (2 ^ 63)

def overflowText : Text := '{' :: '"' :: 'a' :: '"' :: ':' :: (overflowDigits ++ ['}'])

theorem overflowText_renders : RendersText overflowText (.object [(['a'], .int (2 ^ 63))]) := by
  have nothing : Blank [] := by simp [Blank]
  have numeral : Numeral overflowDigits (2 ^ 63) := by
    have digits := @Numeral.plain overflowDigits Nat.toDigits_ne_nil fun c member =>
      Nat.isDigit_of_mem_toDigits (by decide) (by decide) member
    rwa [overflowDigits, Nat.ofDigitChars_ten_toDigits] at digits
  have key : Spells ['a'] ['a'] := .plain (by decide) .nil
  have member := @RendersMember.mk [] [] [] [] _ _ _ _ nothing nothing nothing nothing key (.int numeral)
  rw [List.append_nil] at member
  exact ⟨[], _, [], nothing, nothing, .object (.last member), rfl⟩

theorem overflows_at_overflowText :
    Overflows '\x00' '\x00' (fun _ => .ok ()) overflowText := by
  refine (loads_or_overflows '\x00' '\x00' (fun _ => .ok ()) overflowText_renders).2 fun fitting => ?_
  cases fitting.members _ List.mem_cons_self with
  | int fits => exact absurd fits (by decide)

end ServerFramework.Base
