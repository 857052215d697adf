import Mathlib.Algebra.BigOperators.Group.Finset.Piecewise
import Mathlib.Algebra.Order.BigOperators.Group.Finset
import ServerFramework.Proof.Base.ConfigTermination
import ServerFramework.Proof.Base.ConfigTree

namespace ServerFramework.Base
open Library JsonParser ConfigNode

/-! ## Backslashes -/

def price (s : Text) : Nat := s.count '"' + 2 * s.count '\\'

theorem price_cons (c : Char) (s : Text) : price (c :: s) = price s + price [c] := by
  simp only [price, List.count_cons, List.count_nil]
  omega

theorem price_plain {c : Char} (ordinary : c ≠ '"' ∧ c ≠ '\\') : price [c] = 0 := by
  simp [price, ordinary]

namespace Stream

def backslashes : Stream → Nat
  | good rest => rest.count '\\'
  | failed => 0

def Closed : Stream → Prop
  | good rest => rest.getLast? ≠ some '\\'
  | failed => True

theorem Reads.backslashes {before after : Stream} (reads : before.Reads after) :
    after.backslashes ≤ before.backslashes := by
  cases after with
  | failed => exact Nat.zero_le _
  | good rest =>
      obtain ⟨front, rfl⟩ := reads rest rfl
      change rest.count '\\' ≤ (front ++ rest).count '\\'
      rw [List.count_append]
      exact Nat.le_add_left _ _

theorem Reads.closed {before after : Stream} (reads : before.Reads after) (closed : before.Closed) : after.Closed := by
  cases after with
  | failed => exact trivial
  | good rest =>
      obtain ⟨front, rfl⟩ := reads rest rfl
      intro last
      apply closed
      rw [List.getLast?_append, last]
      rfl

end Stream

/-! ## What the parser's strings cost -/

variable (n₀ : Char)

theorem unescape_price (n : Char) : price [unescape n] ≤ 1 + [n].count '\\' := by
  by_cases quote : n = '"'
  · subst quote
    decide
  by_cases backslash : n = '\\'
  · subst backslash
    decide
  have ordinary : unescape n ≠ '"' ∧ unescape n ≠ '\\' := by
    unfold unescape
    split
    · decide
    split
    · decide
    split
    · decide
    · exact ⟨quote, backslash⟩
  rw [price_plain ordinary]
  exact Nat.zero_le _

theorem stringBody_price {text : Text} (closed : (Stream.good text).Closed) :
    price (stringBody n₀ text).1 + (stringBody n₀ text).2.backslashes ≤ text.count '\\' := by
  fun_induction stringBody n₀ text with
  | case1 => exact Nat.le_refl 0
  | case2 => exact absurd rfl closed
  | case3 n rest s is found ih =>
      have later := ih ((((Stream.Reads.refl _).cons n).cons '\\').closed closed)
      have first := unescape_price n
      rw [found] at later
      dsimp only at later ⊢
      have behind : (n :: rest).count '\\' = [n].count '\\' + rest.count '\\' := by
        rw [← List.singleton_append, List.count_append]
      rw [price_cons, List.count_cons_self]
      omega
  | case4 rest plain =>
      rw [List.count_cons_of_ne plain]
      exact Nat.le_of_eq (Nat.zero_add _)
  | case5 c rest plain open_ s is found ih =>
      have later := ih (((Stream.Reads.refl _).cons c).closed closed)
      rw [found] at later
      dsimp only at later ⊢
      rw [price_cons, price_plain ⟨open_, plain⟩, List.count_cons_of_ne plain]
      exact later

theorem parseString_price {is : Stream} (closed : is.Closed) :
    price (parseString n₀ is).1 + (parseString n₀ is).2.backslashes ≤ is.backslashes := by
  cases is with
  | failed => exact Nat.le_refl 0
  | good text =>
      cases text with
      | nil => exact Nat.le_refl 0
      | cons c rest =>
          have reads := (Stream.Reads.refl (.good rest)).cons c
          have inside := stringBody_price n₀ (reads.closed closed)
          exact inside.trans reads.backslashes

/-! ## What the parser's values cost -/

variable {δ : Type} (c₀ : Char) (stod : Text → Except StdException δ)

def ConfigValue.price : ConfigValue δ → Nat
  | .string s => Base.price s
  | _ => 0

theorem arrayBody_reads (c : Char) (is : Stream) (arr : List Text) :
    match arrayBody n₀ (c, is, arr) with
    | .inl s => is.Reads s.2.1
    | .inr r => is.Reads r.1 := by
  rcases skipWs_cases is with empty | ⟨d, rest, found, -⟩
  · rw [arrayBody_failed n₀ c arr empty]
    by_cases close : c = ']'
    · rw [if_pos close]
      exact .failed is
    rw [if_neg close]
    by_cases other : c ≠ ','
    · rw [if_pos other]
      exact .failed is
    · rw [if_neg other]
      exact .failed is
  have front := skipWs_reads is
  rw [found] at front
  have opened := front.trans ((Stream.Reads.refl (.good rest)).cons d)
  by_cases close : d = ']'
  · subst close
    have ended : arrayBody n₀ (c, is, arr) = .inr (.good rest, arr) := by simp [arrayBody, found]
    rw [ended]
    exact opened
  rw [arrayBody_element n₀ c arr found close]
  have behind := skipWs_get_reads (skipString rest) d
  have element := opened.trans (skipString_reads rest)
  dsimp only
  by_cases bracket : ((skipWs (skipString rest)).get d).1 = ']'
  · rw [if_pos bracket]
    exact element.trans behind.2
  rw [if_neg bracket]
  by_cases other : ((skipWs (skipString rest)).get d).1 ≠ ','
  · rw [if_pos other]
    exact element.trans behind.2
  · rw [if_neg other]
    exact element.trans behind.1

theorem arrayLoop_reads {fuel : Nat} {c : Char} {is : Stream} {arr : List Text} {r : Stream × List Text}
    (done : loop (arrayBody n₀) fuel (c, is, arr) = some r) : is.Reads r.1 := by
  refine @loop_invariant _ _ (arrayBody n₀) (fun s => is.Reads s.2.1) (fun r => is.Reads r.1) ?_ ?_ _ _ _ (.refl is) done
  · rintro ⟨c, is', arr⟩ s reads round
    have more := arrayBody_reads n₀ c is' arr
    rw [round] at more
    exact reads.trans more
  · rintro ⟨c, is', arr⟩ r reads round
    have more := arrayBody_reads n₀ c is' arr
    rw [round] at more
    exact reads.trans more

theorem map_eq_ok {ε α β : Type} {f : α → β} {x : Except ε α} {b : β} (mapped : f <$> x = .ok b) : ∃ a, f a = b := by
  cases x with
  | error e => cases mapped
  | ok a =>
      cases mapped
      exact ⟨a, rfl⟩

theorem arrayValue_price {arr : List Text} {v : ConfigValue δ} (value : arrayValue stod arr = .ok v) : v.price = 0 := by
  unfold arrayValue at value
  split at value
  · obtain ⟨is, rfl⟩ := map_eq_ok value
    rfl
  split at value
  · obtain ⟨ds, rfl⟩ := map_eq_ok value
    rfl
  · cases value
    rfl

theorem tokenValue_price {token : Text} {v : ConfigValue δ} (value : tokenValue stod token = .ok v) : v.price = 0 := by
  unfold tokenValue at value
  split at value
  · cases value
    rfl
  split at value
  · cases value
    rfl
  split at value
  · cases value
    rfl
  split at value
  · obtain ⟨d, rfl⟩ := map_eq_ok value
    rfl
  · obtain ⟨i, rfl⟩ := map_eq_ok value
    rfl

theorem parseValue_price {fuel : Nat} {is after : Stream} {v : ConfigValue δ} (closed : is.Closed)
    (parsed : parseValue n₀ c₀ stod fuel is = some (.ok v, after)) :
    v.price + after.backslashes ≤ is.backslashes ∧ is.Reads after := by
  have reads := skipWs_get_reads is c₀
  unfold parseValue at parsed
  generalize (skipWs is).get c₀ = first at parsed reads
  obtain ⟨c, next⟩ := first
  dsimp only at parsed reads
  -- only a string costs anything
  have free : ∀ {after' : Stream}, is.Reads after' → v.price = 0 → after = after' →
      v.price + after.backslashes ≤ is.backslashes ∧ is.Reads after := by
    rintro _ behind nothing rfl
    rw [nothing, Nat.zero_add]
    exact ⟨behind.backslashes, behind⟩
  split at parsed
  · have paid := parseString_price n₀ (reads.2.closed closed)
    have behind := reads.2.trans (parseString_reads n₀ (next.putback c))
    rename_i quote
    subst quote
    cases parsed
    exact ⟨paid.trans reads.2.backslashes, behind⟩
  split at parsed
  · obtain ⟨⟨is', arr⟩, done, value⟩ := Option.map_eq_some_iff.mp parsed
    obtain ⟨value, same⟩ := Prod.ext_iff.mp value
    exact free (reads.1.trans (arrayLoop_reads n₀ done)) (arrayValue_price stod value) same.symm
  split at parsed
  · cases parsed
    rename_i brace
    subst brace
    exact free reads.2 rfl rfl
  · obtain ⟨value, rfl⟩ := Prod.mk.inj (Option.some.inj parsed)
    exact free (reads.1.trans (readToken_reads c next)) (tokenValue_price stod value) rfl

/-! ## What the loader's members cost -/

def worthAt (root : ConfigNode δ) (key : Text) : Nat :=
  match (root.getKey key).map value with
  | none => 0
  | some v => price key + (v.map ConfigValue.price).getD 0

def worth (keys : Finset Text) (root : ConfigNode δ) : Nat := ∑ key ∈ keys, worthAt root key

theorem value_modify (key : Text) (v : ConfigValue δ) (path : List Text) (node : ConfigNode δ) :
    (node.modify (setKey key v) path).value = node.value := by
  cases path with
  | nil => rfl
  | cons front path =>
      rw [ConfigNode.modify]
      split
      · rfl
      · rfl

theorem worthAt_setKey (key : Text) (v : ConfigValue δ) (path : List Text) (root : ConfigNode δ) (other : Text) :
    worthAt (root.modify (setKey key v) path) other ≤
      worthAt root other + if other = key then price key + v.price else 0 := by
  cases path with
  | nil =>
      by_cases same : other = key
      · subst same
        simp only [ConfigNode.modify, worthAt, setKey, getKey_putChild, if_true, Option.map_some]
        exact Nat.le_add_left _ _
      · simp only [ConfigNode.modify, worthAt, setKey, getKey_putChild, if_neg same]
        exact Nat.le_refl _
  | cons front path =>
      -- a member of a child leaves the child's own value alone
      have kept : worthAt (root.modify (setKey key v) (front :: path)) other = worthAt root other := by
        rw [ConfigNode.modify]
        cases found : root.getKey front with
        | none => rfl
        | some child =>
            by_cases same : other = front
            · subst same
              simp only [worthAt, getKey_putChild, if_true, Option.map_some, value_modify, found]
            · simp only [worthAt, getKey_putChild, if_neg same]
      rw [kept]
      exact Nat.le_add_right _ _

theorem worth_setKey (keys : Finset Text) (key : Text) (v : ConfigValue δ) (path : List Text) (root : ConfigNode δ) :
    worth keys (root.modify (setKey key v) path) ≤ worth keys root + (price key + v.price) := by
  calc worth keys (root.modify (setKey key v) path)
      ≤ ∑ other ∈ keys, (worthAt root other + if other = key then price key + v.price else 0) :=
        Finset.sum_le_sum fun other _ => worthAt_setKey key v path root other
    _ = worth keys root + if key ∈ keys then price key + v.price else 0 := by
        rw [Finset.sum_add_distrib, Finset.sum_ite_eq', worth]
    _ ≤ worth keys root + (price key + v.price) := by
        apply Nat.add_le_add_left
        split
        · exact Nat.le_refl _
        · exact Nat.zero_le _

/-- The loader's keys and strings have been paid for with the backslashes read so far. -/
structure Spent (keys : Finset Text) (budget : Nat) (s : Loader δ) : Prop where
  closed : s.stream.Closed
  paid : worth keys s.root + s.stream.backslashes ≤ budget

namespace Loader

variable {keys : Finset Text} {budget : Nat}

theorem spent_reads {s : Loader δ} (spent : Spent keys budget s) {t : Loader δ} (reads : s.stream.Reads t.stream)
    (same : t.root = s.root) : Spent keys budget t := by
  refine ⟨reads.closed spent.closed, ?_⟩
  have paid := spent.paid
  have less := reads.backslashes
  rw [same]
  omega

theorem spent_member {s : Loader δ} (spent : Spent keys budget s) {rest : Text} (quote : s.stream = .good ('"' :: rest))
    (fuel : Nat) :
    match readMember n₀ c₀ stod fuel s with
    | .inl t => Spent keys budget t
    | .inr r => ∀ root, r = some ⟨root, none⟩ → worth keys root ≤ budget := by
  have text_left : s.stream.Reads (skipString rest) := by
    rw [quote]
    exact (skipString_reads rest).cons '"'
  have missing : ∀ c, Spent keys budget { s with stream := ((skipWs (skipString rest)).get c).2 } := fun c =>
    spent_reads spent (text_left.trans (skipWs_get_reads _ c).1) rfl
  rcases skipWs_cases (skipString rest) with empty | ⟨d, value, found, -⟩
  · rw [readMember_other n₀ c₀ stod fuel quote (by simp [empty])]
    exact missing '"'
  by_cases colon : d = ':'
  · subst colon
    have behind : (skipString rest).Reads (valueStart value) := by
      have spaces := skipWs_reads (skipString rest)
      rw [found] at spaces
      exact spaces.trans ((skipWs_get_reads (.good value) ':').2.cons ':')
    rw [readMember_colon n₀ c₀ stod fuel quote found, readValue]
    cases parsed : parseValue n₀ c₀ stod fuel (valueStart value) with
    | none =>
        intro root same
        cases same
    | some r =>
        obtain ⟨outcome, after⟩ := r
        cases outcome with
        | error e =>
            intro root same
            cases same
        | ok v =>
            have start := (text_left.trans behind).closed spent.closed
            obtain ⟨value_paid, value_read⟩ := parseValue_price n₀ c₀ stod start parsed
            have text_closed : (Stream.good rest).Closed := by
              have closed := spent.closed
              rw [quote] at closed
              exact ((Stream.Reads.refl _).cons '"').closed closed
            have key_paid := stringBody_price n₀ text_closed
            rw [stringBody_stream] at key_paid
            have between := behind.backslashes
            have budgeted := spent.paid
            rw [quote] at budgeted
            change _ + ('"' :: rest).count '\\' ≤ budget at budgeted
            rw [List.count_cons_of_ne (by decide)] at budgeted
            have added := worth_setKey keys (stringBody n₀ rest).1 v s.back s.root
            refine ⟨value_read.closed start, ?_⟩
            dsimp only
            omega
  · rw [readMember_other n₀ c₀ stod fuel quote (by simp [found, colon])]
    exact missing '"'

theorem spent_step {s : Loader δ} (spent : Spent keys budget s) (fuel : Nat) :
    match step n₀ c₀ stod fuel s with
    | .inl t => Spent keys budget t
    | .inr r => ∀ root, r = some ⟨root, none⟩ → worth keys root ≤ budget := by
  have ended : ∀ root, some (⟨s.root, none⟩ : Loaded δ) = some ⟨root, none⟩ → worth keys root ≤ budget := by
    rintro root same
    cases same
    exact (Nat.le_add_right _ _).trans spent.paid
  cases stream : s.stream with
  | failed =>
      simp only [step, stream]
      exact ended
  | good text =>
      cases text with
      | nil =>
          simp only [step, stream]
          exact ended
      | cons c rest =>
          by_cases quote : c = '"'
          · subst quote
            rw [step_quote n₀ c₀ stod fuel stream]
            exact spent_member n₀ c₀ stod spent stream fuel
          · obtain ⟨next, left, same, always⟩ := step_plain n₀ c₀ stod stream quote
            rw [always]
            apply spent_reads spent _ same
            rw [stream, left]
            exact (Stream.Reads.refl _).cons c

end Loader

theorem parseJsonStream_worth {fuel : Nat} {text : Text} {root : ConfigNode δ} (closed : (Stream.good text).Closed)
    (loaded : Config.parseJsonStream n₀ c₀ stod fuel text = some ⟨root, none⟩) (keys : Finset Text) :
    worth keys root ≤ text.count '\\' := by
  have done := Option.join_eq_some_iff.mp loaded
  have nothing : worth keys (.empty : ConfigNode δ) = 0 := Finset.sum_eq_zero fun _ _ => rfl
  have start : Spent keys (text.count '\\') ({ stream := .good text } : Loader δ) := by
    refine ⟨closed, ?_⟩
    change worth keys .empty + text.count '\\' ≤ _
    rw [nothing, Nat.zero_add]
  refine @loop_invariant _ _ (Loader.step n₀ c₀ stod fuel) (Spent keys (text.count '\\'))
    (fun r => ∀ root, r = some ⟨root, none⟩ → worth keys root ≤ text.count '\\') ?_ ?_ _ _ _ start done root rfl
  · intro s t spent round
    have next := Loader.spent_step n₀ c₀ stod spent fuel
    rw [round] at next
    exact next
  · intro s r spent round
    have last := Loader.spent_step n₀ c₀ stod spent fuel
    rw [round] at last
    exact last

end ServerFramework.Base
