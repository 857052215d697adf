import ServerFramework.Base.ConfigFile

namespace ServerFramework.Base
open Library

variable {δ : Type} (n₀ c₀ : Char) (stod : Text → Except StdException δ)

namespace Config

/-! ## Loading and polling -/

theorem open_named {path : Text} (named : path ≠ []) (file : Option Text) : openFile path file = file := if_neg named

theorem loadIni_undefined (cfg : Config δ) {path : Text} (named : path ≠ []) (content : Text) :
    cfg.loadIni path (some content) = none := by
  rw [loadIni, open_named named]
  rfl

theorem loadJson_open (cfg : Config δ) {path : Text} (named : path ≠ []) (content : Text) :
    cfg.loadJson n₀ c₀ stod path (some content) = (parseContent n₀ c₀ stod content).map fun loaded =>
      (.of loaded.thrown, cfg.reload path content loaded.root) := by
  rw [loadJson, open_named named]

theorem pollChanges_same {cfg : Config δ} {content : Text} (same : content.length = cfg.lastContent.length) :
    cfg.pollChanges n₀ c₀ stod (some content) = some (.ok (), cfg) := by
  by_cases named : cfg.filePath = []
  · rw [pollChanges, openFile, if_pos named]
  · rw [pollChanges, open_named named]
    exact if_pos same

theorem pollChanges_other {cfg : Config δ} {content : Text} (named : cfg.filePath ≠ [])
    (other : content.length ≠ cfg.lastContent.length) :
    cfg.pollChanges n₀ c₀ stod (some content) = (parseContent n₀ c₀ stod content).map fun loaded =>
      match loaded.thrown with
      | none => (.ok (), (cfg.reload cfg.filePath content loaded.root).notifyAll)
      | some e => (.error e, cfg.reload cfg.filePath content loaded.root) := by
  rw [pollChanges, open_named named]
  exact if_neg other

/-! ## Hot reload -/

inductive Format
  | json
  | ini

def load (format : Format) (cfg : Config δ) (path content : Text) : Option (LoadResult × Config δ) :=
  match format with
  | .json => cfg.loadJson n₀ c₀ stod path (some content)
  | .ini => cfg.loadIni path (some content)

def FreshRoot (format : Format) (path content : Text) (root : ConfigNode δ) : Prop :=
  ∃ cfg : Config δ, load n₀ c₀ stod format {} path content = some (.returned true, cfg) ∧ cfg.root = root

def Parsable (content : Text) : Prop := ∃ root : ConfigNode δ, parseContent n₀ c₀ stod content = some ⟨root, none⟩

def poll (cfg : Config δ) (content : Text) : Option (Config δ) :=
  (cfg.pollChanges n₀ c₀ stod (some content)).map Prod.snd

structure Reloaded (format : Format) (before after : Config δ) (content : Text) : Prop where
  root : FreshRoot n₀ c₀ stod format before.filePath content after.root
  watchers : after.notified = before.notified ++
    if content = before.lastContent then [] else before.watchers.map fun callback => (callback, before.filePath)

/-- Each poll of these contents in turn returns and does what it should. -/
def HotReload (format : Format) : Config δ → List Text → Prop
  | _, [] => True
  | cfg, content :: contents => ∃ next, poll n₀ c₀ stod cfg content = some next ∧
      Reloaded n₀ c₀ stod format cfg next content ∧ HotReload format next contents

/-- The content is the one last loaded, or differs from it in size too. -/
def SizeTells (cfg : Config δ) (content : Text) : Prop :=
  content = cfg.lastContent ∨ content.length ≠ cfg.lastContent.length

structure UpToDate (cfg : Config δ) : Prop where
  named : cfg.filePath ≠ []
  root : FreshRoot n₀ c₀ stod .json cfg.filePath cfg.lastContent cfg.root

theorem freshRoot_of_parse {path content : Text} {root : ConfigNode δ} (named : path ≠ [])
    (parsed : parseContent n₀ c₀ stod content = some ⟨root, none⟩) :
    FreshRoot n₀ c₀ stod .json path content root := by
  refine ⟨reload {} path content root, ?_, rfl⟩
  rw [load, loadJson_open n₀ c₀ stod {} named, parsed]
  rfl

theorem load_returned {format : Format} {prior loaded : Config δ} {path content : Text}
    (returned : load n₀ c₀ stod format prior path content = some (.returned true, loaded)) :
    format = .json ∧ UpToDate n₀ c₀ stod loaded := by
  by_cases named : path = []
  · subst named
    cases format <;> cases returned
  · cases format with
    | ini =>
        rw [load, loadIni_undefined prior named] at returned
        cases returned
    | json =>
        rw [load, loadJson_open n₀ c₀ stod prior named] at returned
        obtain ⟨⟨root, thrown⟩, parsed, same⟩ := Option.map_eq_some_iff.mp returned
        cases thrown with
        | some e => cases same
        | none =>
            cases same
            exact ⟨rfl, named, freshRoot_of_parse n₀ c₀ stod named parsed⟩

theorem poll_same {cfg : Config δ} {content : Text} (same : content.length = cfg.lastContent.length) :
    poll n₀ c₀ stod cfg content = some cfg := by
  rw [poll, pollChanges_same n₀ c₀ stod same]
  rfl

theorem poll_upToDate {cfg : Config δ} {content : Text} (current : UpToDate n₀ c₀ stod cfg)
    (parsable : Parsable n₀ c₀ stod content) (tells : SizeTells cfg content) :
    ∃ next, poll n₀ c₀ stod cfg content = some next ∧ Reloaded n₀ c₀ stod .json cfg next content ∧
      UpToDate n₀ c₀ stod next := by
  by_cases same : content.length = cfg.lastContent.length
  · have unchanged : content = cfg.lastContent := tells.resolve_right fun other => other same
    refine ⟨cfg, poll_same n₀ c₀ stod same, ⟨?_, ?_⟩, current⟩
    · rw [unchanged]
      exact current.root
    · rw [if_pos unchanged, List.append_nil]
  · obtain ⟨root, parsed⟩ := parsable
    have changed : content ≠ cfg.lastContent := fun equal => same (congrArg List.length equal)
    have fresh := freshRoot_of_parse n₀ c₀ stod current.named parsed
    refine ⟨(cfg.reload cfg.filePath content root).notifyAll, ?_, ⟨fresh, ?_⟩, current.named, fresh⟩
    · rw [poll, pollChanges_other n₀ c₀ stod current.named same, parsed]
      rfl
    · rw [if_neg changed]
      rfl

theorem tells_of_reloaded {format : Format} {cfg next : Config δ} {content : Text} (watched : cfg.watchers ≠ [])
    (polled : poll n₀ c₀ stod cfg content = some next) (reloaded : Reloaded n₀ c₀ stod format cfg next content) :
    SizeTells cfg content := by
  by_cases same : content.length = cfg.lastContent.length
  · by_cases unchanged : content = cfg.lastContent
    · exact .inl unchanged
    · rw [poll_same n₀ c₀ stod same] at polled
      cases polled
      have silent := reloaded.watchers
      rw [if_neg unchanged, List.self_eq_append_right, List.map_eq_nil_iff] at silent
      exact absurd silent watched
  · exact .inr same

theorem poll_watchers {cfg next : Config δ} {content : Text} (polled : poll n₀ c₀ stod cfg content = some next) :
    next.watchers = cfg.watchers := by
  obtain ⟨⟨result, after⟩, done, rfl⟩ := Option.map_eq_some_iff.mp polled
  by_cases named : cfg.filePath = []
  · rw [pollChanges, openFile, if_pos named] at done
    cases done
    rfl
  · by_cases same : content.length = cfg.lastContent.length
    · rw [pollChanges_same n₀ c₀ stod same] at done
      cases done
      rfl
    · rw [pollChanges_other n₀ c₀ stod named same] at done
      obtain ⟨⟨root, thrown⟩, -, last⟩ := Option.map_eq_some_iff.mp done
      cases thrown with
      | none =>
          cases last
          rfl
      | some e =>
          cases last
          rfl

theorem hotReload_of_sizes {cfg : Config δ} {contents : List Text} (current : UpToDate n₀ c₀ stod cfg)
    (parsable : ∀ content ∈ contents, Parsable n₀ c₀ stod content)
    (tells : Respects SizeTells (poll n₀ c₀ stod) cfg contents) : HotReload n₀ c₀ stod .json cfg contents := by
  induction contents generalizing cfg with
  | nil => trivial
  | cons content contents ih =>
      obtain ⟨next, polled, reloaded, later⟩ :=
        poll_upToDate n₀ c₀ stod current (parsable content List.mem_cons_self) tells.1
      have rest := ih later (fun other member => parsable other (List.mem_cons_of_mem _ member)) (tells.2 next polled)
      exact ⟨next, polled, reloaded, rest⟩

theorem sizes_of_hotReload {format : Format} {cfg : Config δ} {contents : List Text} (watched : cfg.watchers ≠ [])
    (hot : HotReload n₀ c₀ stod format cfg contents) : Respects SizeTells (poll n₀ c₀ stod) cfg contents := by
  induction contents generalizing cfg with
  | nil => trivial
  | cons content contents ih =>
      obtain ⟨next, polled, reloaded, rest⟩ := hot
      have still : next.watchers ≠ [] := by rwa [poll_watchers n₀ c₀ stod polled]
      exact respects_cons polled (tells_of_reloaded n₀ c₀ stod watched polled reloaded) (ih still rest)

theorem hot_reload_iff_sizes_tell {format : Format} {prior loaded : Config δ} {path content : Text}
    (returned : load n₀ c₀ stod format prior path content = some (.returned true, loaded)) (contents : List Text)
    (parsable : ∀ content ∈ contents, Parsable n₀ c₀ stod content) :
    format = .json ∧
    (Respects SizeTells (poll n₀ c₀ stod) loaded contents → HotReload n₀ c₀ stod format loaded contents) ∧
    (loaded.watchers ≠ [] → HotReload n₀ c₀ stod format loaded contents →
      Respects SizeTells (poll n₀ c₀ stod) loaded contents) := by
  obtain ⟨rfl, current⟩ := load_returned n₀ c₀ stod returned
  exact ⟨rfl, hotReload_of_sizes n₀ c₀ stod current parsable, sizes_of_hotReload n₀ c₀ stod⟩

def oneText : Text := ['{', '"', 'a', '"', ':', '1', '}']

def twoText : Text := ['{', '"', 'a', '"', ':', '2', '}']

def tenText : Text := ['{', '"', 'a', '"', ':', '1', '0', '}']

def noDoubles : Text → Except StdException Unit := fun _ => .ok ()

def watched : Config Unit := { watchers := [0] }

theorem hot_reload_of_longer_content :
    ∃ loaded, load '\x00' '\x00' noDoubles .json watched ['c'] oneText = some (.returned true, loaded) ∧
      HotReload '\x00' '\x00' noDoubles .json loaded [tenText, tenText] := by
  obtain ⟨loaded, returned⟩ :
      ∃ loaded, load '\x00' '\x00' noDoubles .json watched ['c'] oneText = some (.returned true, loaded) := ⟨_, rfl⟩
  have parsable : ∀ content ∈ [tenText, tenText], Parsable '\x00' '\x00' noDoubles content := by
    intro content member
    obtain rfl : content = tenText := by simpa using member
    exact ⟨_, rfl⟩
  refine ⟨loaded, returned, (hot_reload_iff_sizes_tell _ _ _ returned _ parsable).2.1 ?_⟩
  cases returned
  exact ⟨.inr (by decide), fun next polled => ⟨.inl (by cases polled; rfl), fun _ _ => trivial⟩⟩

/-- An edit that keeps the size goes unseen; after `load_ini` nothing can be said. -/
theorem hot_reload_misses_same_size :
    (∃ loaded, load '\x00' '\x00' noDoubles .json watched ['c'] oneText = some (.returned true, loaded) ∧
      Parsable '\x00' '\x00' noDoubles twoText ∧ ¬ HotReload '\x00' '\x00' noDoubles .json loaded [twoText]) ∧
    load '\x00' '\x00' noDoubles .ini watched ['c'] ['[', 's', ']', '\n', 'k', '=', 'v'] = none := by
  refine ⟨⟨_, rfl, ⟨_, rfl⟩, ?_⟩, rfl⟩
  rintro ⟨next, polled, reloaded, -⟩
  cases polled
  have silent := reloaded.watchers
  cases silent

/-! ## Failed loads -/

structure Intact (before after : Config δ) : Prop where
  root : after.root = before.root
  filePath : after.filePath = before.filePath
  lastContent : after.lastContent = before.lastContent

theorem failed_load_intact_iff (cfg : Config δ) (path content : Text)
    (fails : ∃ root e, parseContent n₀ c₀ stod content = some ⟨root, some e⟩) :
    ((∃ after, cfg.loadJson n₀ c₀ stod path (some content) = some (.returned false, after) ∧ Intact cfg after) ↔
      path = []) ∧
    ((∃ after, cfg.pollChanges n₀ c₀ stod (some content) = some (.ok (), after) ∧ Intact cfg after) ↔
      cfg.filePath = [] ∨ content.length = cfg.lastContent.length) := by
  obtain ⟨root, e, parsed⟩ := fails
  refine ⟨⟨?_, ?_⟩, ?_, ?_⟩
  · rintro ⟨after, loaded, -⟩
    by_contra named
    rw [loadJson_open n₀ c₀ stod cfg named, parsed] at loaded
    cases loaded
  · rintro rfl
    exact ⟨cfg, rfl, rfl, rfl, rfl⟩
  · rintro ⟨after, polled, -⟩
    by_cases named : cfg.filePath = []
    · exact .inl named
    · by_cases same : content.length = cfg.lastContent.length
      · exact .inr same
      · rw [pollChanges_other n₀ c₀ stod named same, parsed] at polled
        cases polled
  · rintro (unnamed | same)
    · exact ⟨cfg, by rw [pollChanges, openFile, if_pos unnamed], rfl, rfl, rfl⟩
    · exact ⟨cfg, pollChanges_same n₀ c₀ stod same, rfl, rfl, rfl⟩

def wrongText : Text := ['{', '"', 'a', '"', ':', 'x', '}']

theorem wrongText_fails : ∃ (root : ConfigNode Unit) (e : StdException),
    parseContent '\x00' '\x00' noDoubles wrongText = some ⟨root, some e⟩ := ⟨_, _, rfl⟩

theorem failed_poll_of_same_size_intact :
    ∃ after, pollChanges '\x00' '\x00' noDoubles { filePath := ['c'], lastContent := oneText } (some wrongText) =
      some (.ok (), after) ∧ Intact { filePath := ['c'], lastContent := oneText } after :=
  (failed_load_intact_iff _ _ _ _ ['c'] wrongText wrongText_fails).2.mpr (.inr rfl)

theorem failed_load_escapes :
    (∃ after, loadJson '\x00' '\x00' noDoubles { filePath := ['c'], lastContent := tenText } ['d'] (some wrongText) =
        some (.threw .invalidArgument, after) ∧
      after.filePath = ['d'] ∧ after.lastContent = wrongText) ∧
    ∃ after, pollChanges '\x00' '\x00' noDoubles { filePath := ['c'], lastContent := tenText } (some wrongText) =
        some (.error .invalidArgument, after) ∧
      after.lastContent = wrongText :=
  ⟨⟨_, rfl, rfl, rfl⟩, _, rfl, rfl⟩

end Config

end ServerFramework.Base
