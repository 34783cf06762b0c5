import Mathlib
import TenantRegistry.Settings
import TenantRegistry.Proofs.Number.DecimalText
import TenantRegistry.Proofs.Text.Trimmed

/-!
Which settings come from an environment.

Each setting is said by its own variable and the stage: the kind of store by a name with white
space around it, a number by its digits or the preset, any other text by itself unless it is empty.
An environment gives settings exactly if they are all as said (`ofEnvironment_eq_ok_iff`), and
gives none exactly if the text for the kind of store names none (`ofEnvironment_eq_error_iff`).
-/

namespace TenantRegistry

/-! ## Kinds of stores -/

namespace Backend

/-- The names of a kind of store. -/
def names : Backend → List String
  | .graphql => ["graphql", "hasura"]
  | .postgres => ["postgres", "postgresql"]
  | .memory => ["memory"]

/-- A text is one of the names, its letters in either case, with white space around it or not. -/
def NamedBy (b : Backend) (text : String) : Prop :=
  ∃ before name after : List Char, text.toList = before ++ name ++ after ∧
    (∀ c ∈ before ++ after, Text.isBlank c = true) ∧
    String.ofList (name.map Char.toLower) ∈ b.names

theorem ofName?_eq_some_iff {b : Backend} {name : String} :
    ofName? name = some b ↔ name ∈ b.names := by
  unfold ofName?
  split
  · next h => rcases h with rfl | rfl <;> cases b <;> simp [names]
  · next hgraphql =>
    split
    · next h => rcases h with rfl | rfl <;> cases b <;> simp [names]
    · next hpostgres =>
      split
      · next h => subst h; cases b <;> simp [names]
      · next hmemory => cases b <;> simp [names, hmemory] <;> tauto

/-- What is one of the names in lower case has letters only. -/
theorem isAlpha_of_mem_names {b : Backend} {name : List Char}
    (h : String.ofList (name.map Char.toLower) ∈ b.names) :
    name ≠ [] ∧ ∀ c ∈ name, c.isAlpha = true := by
  have hnames : ∀ n ∈ b.names, n.toList ≠ [] ∧ ∀ c ∈ n.toList, c.isAlpha = true := by
    cases b <;> simp [names]
  obtain ⟨hne, halpha⟩ := hnames _ h
  rw [String.toList_ofList] at hne halpha
  refine ⟨by simpa using hne, fun c hc => ?_⟩
  rw [← Char.isAlpha_toLower_eq_isAlpha]
  exact halpha _ (List.mem_map_of_mem hc)

/-- A text is a name between white space exactly if trimming and lower case make it that name. -/
theorem namedBy_iff {b : Backend} {text : String} :
    b.NamedBy text ↔
      String.ofList ((Text.trimBy Text.isBlank text.toList).map Char.toLower) ∈ b.names := by
  constructor
  · rintro ⟨before, name, after, htext, hends, hname⟩
    obtain ⟨hne, halpha⟩ := isAlpha_of_mem_names hname
    have hletter : ∀ c ∈ name, Text.isBlank c = false := fun c hc =>
      Text.isBlank_of_isAlpha (halpha c hc)
    rwa [htext, Text.trimBy_append hends (fun c hc => hletter c (List.mem_of_mem_head? hc))
      (fun c hc => hletter c (List.mem_of_mem_getLast? hc)) hne]
  · intro hname
    obtain ⟨before, after, htext, hends, -, -⟩ := Text.exists_trimBy Text.isBlank text.toList
    exact ⟨before, _, after, htext, hends, hname⟩

theorem ofText_eq_ok_iff {b : Backend} {text : String} : ofText text = .ok b ↔ b.NamedBy text := by
  rw [namedBy_iff, ← ofName?_eq_some_iff, ofText]
  cases ofName? (String.ofList ((Text.trimBy Text.isBlank text.toList).map Char.toLower)) <;> simp

theorem ofText_eq_error_iff {e : SettingsError} {text : String} :
    ofText text = .error e ↔ (∀ b : Backend, ¬ b.NamedBy text) ∧ e = .unknownBackend text := by
  simp only [← ofText_eq_ok_iff, ofText]
  split <;> simp [eq_comm]

end Backend

/-! ## Stages -/

namespace Stage

theorem ofText_eq_production_iff {text : Option String} :
    ofText text = .production ↔ text = some "production" ∨ text = some "prod" := by
  unfold ofText
  split
  · next h => simp [h]
  · next h => split <;> simp [h]

theorem ofText_eq_staging_iff {text : Option String} :
    ofText text = .staging ↔ text = some "staging" ∨ text = some "stage" := by
  unfold ofText
  split
  · next h => rcases h with rfl | rfl <;> simp
  · split
    · next h => simp [h]
    · next h => simp [h]

end Stage

/-! ## Numbers and texts -/

/-- The settings that are numbers. -/
inductive NumericSetting where
  | timeout
  | maxConnections
  | maxBody
  | maxDepth
  deriving DecidableEq, Repr

namespace NumericSetting

def variableName : NumericSetting → String
  | .timeout => "GRAPHQL_REQUEST_TIMEOUT_SECS"
  | .maxConnections => "DATABASE_MAX_CONNECTIONS"
  | .maxBody => "API_MAX_REQUEST_SIZE_BYTES"
  | .maxDepth => "DOCUMENT_MAX_DEPTH"

/-- The least number that the setting has no room for. -/
def bound : NumericSetting → Nat
  | .maxConnections => 2 ^ 32
  | .timeout | .maxBody | .maxDepth => 2 ^ 64

def value (s : Settings) : NumericSetting → Nat
  | .timeout => s.timeout
  | .maxConnections => s.maxConnections
  | .maxBody => s.maxBody
  | .maxDepth => s.maxDepth

end NumericSetting

/-- The settings that are texts, or are not set. -/
inductive TextSetting where
  | endpoint
  | secret
  | databaseUrl
  deriving DecidableEq, Repr

namespace TextSetting

def variableName : TextSetting → String
  | .endpoint => "GRAPHQL_ENDPOINT"
  | .secret => "HASURA_GRAPHQL_ADMIN_SECRET"
  | .databaseUrl => "DATABASE_URL"

def value (s : Settings) : TextSetting → Option String
  | .endpoint => s.endpoint
  | .secret => s.secret
  | .databaseUrl => s.databaseUrl

end TextSetting

namespace Settings

variable {lookup lookup' : String → Option String} {s s' : Settings}

/-- `n` is the number that a text writes, if it writes one below the bound, and else the default. -/
def NumberFrom (bound default : Nat) (text : Option String) (n : Nat) : Prop :=
  (∃ t, text = some t ∧ Number.Writes t n ∧ n < bound) ∨
    (∀ t m, text = some t → Number.Writes t m → bound ≤ m) ∧ n = default

theorem number_eq_iff {bound default n : Nat} {text : Option String} :
    number bound default text = n ↔ NumberFrom bound default text n := by
  unfold number NumberFrom
  cases hread : text.bind (Number.naturalBelow? bound) with
  | none =>
    have hlarge : ∀ t m, text = some t → Number.Writes t m → bound ≤ m := fun t m ht hm => by
      subst ht
      by_contra hlt
      have hsome := Number.naturalBelow?_eq_some_iff.mpr ⟨hm, Nat.lt_of_not_le hlt⟩
      rw [Option.bind_some, hsome] at hread
      cases hread
    constructor
    · rintro rfl
      exact .inr ⟨hlarge, rfl⟩
    · rintro (⟨t, ht, hn, hlt⟩ | ⟨-, rfl⟩)
      · exact absurd (hlarge t n ht hn) (Nat.not_le_of_lt hlt)
      · rfl
  | some m =>
    obtain ⟨t, rfl, ht⟩ := Option.bind_eq_some_iff.mp hread
    obtain ⟨hm, hlt⟩ := Number.naturalBelow?_eq_some_iff.mp ht
    constructor
    · rintro rfl
      exact .inl ⟨t, rfl, hm, hlt⟩
    · rintro (⟨t', ht', hn, hlt'⟩ | ⟨hlarge, -⟩)
      · cases ht'
        rw [Number.naturalBelow?_eq_some_iff.mpr ⟨hn, hlt'⟩] at ht
        cases ht
        rfl
      · exact absurd (hlarge t m rfl hm) (Nat.not_le_of_lt hlt)

theorem nonEmpty_eq_some_iff {text : Option String} {t : String} :
    nonEmpty text = some t ↔ text = some t ∧ t ≠ "" := by
  simp [nonEmpty, Option.filter_eq_some_iff]

/-! ## Settings of an environment -/

/-- The settings are those that the variables of an environment say, each its own. -/
structure Resolved (lookup : String → Option String) (s : Settings) : Prop where
  production : s.stage = .production ↔
    lookup "APP_ENV" = some "production" ∨ lookup "APP_ENV" = some "prod"
  staging : s.stage = .staging ↔
    lookup "APP_ENV" = some "staging" ∨ lookup "APP_ENV" = some "stage"
  backend : (∃ text, lookup "STORE_BACKEND" = some text ∧ s.backend.NamedBy text) ∨
    lookup "STORE_BACKEND" = none ∧ s.backend = (preset s.stage).backend
  number : ∀ n : NumericSetting, NumberFrom n.bound (n.value (preset s.stage))
    (lookup n.variableName) (n.value s)
  text : ∀ t : TextSetting, ∀ v, t.value s = some v ↔ lookup t.variableName = some v ∧ v ≠ ""

/-! ## Reading an environment -/

/-- The kind of store that is read from an environment. -/
def readBackend (lookup : String → Option String) : Except SettingsError Backend :=
  match lookup "STORE_BACKEND" with
  | some text => Backend.ofText text
  | none => .ok (preset (Stage.ofText (lookup "APP_ENV"))).backend

def readNumber (lookup : String → Option String) (n : NumericSetting) : Nat :=
  number n.bound (n.value (preset (Stage.ofText (lookup "APP_ENV")))) (lookup n.variableName)

def readText (lookup : String → Option String) (t : TextSetting) : Option String :=
  nonEmpty (lookup t.variableName)

/-- The settings that are read from an environment, with some kind of store. -/
def readWith (lookup : String → Option String) (backend : Backend) : Settings where
  stage := Stage.ofText (lookup "APP_ENV")
  backend
  endpoint := readText lookup .endpoint
  secret := readText lookup .secret
  timeout := readNumber lookup .timeout
  databaseUrl := readText lookup .databaseUrl
  maxConnections := readNumber lookup .maxConnections
  maxBody := readNumber lookup .maxBody
  maxDepth := readNumber lookup .maxDepth

theorem stage_preset (stage : Stage) : (preset stage).stage = stage := by
  cases stage <;> rfl

theorem ofEnvironment_eq (lookup : String → Option String) :
    ofEnvironment lookup = (readBackend lookup).map (readWith lookup) := by
  unfold ofEnvironment readBackend
  dsimp only
  rw [stage_preset]
  cases lookup "STORE_BACKEND" with
  | none => rfl
  | some text =>
    dsimp only
    cases Backend.ofText text <;> rfl

theorem value_readWith (n : NumericSetting) (backend : Backend) :
    n.value (readWith lookup backend) = readNumber lookup n := by
  cases n <;> rfl

theorem text_readWith (t : TextSetting) (backend : Backend) :
    t.value (readWith lookup backend) = readText lookup t := by
  cases t <;> rfl

theorem readBackend_eq_ok_iff {b : Backend} :
    readBackend lookup = .ok b ↔
      (∃ text, lookup "STORE_BACKEND" = some text ∧ b.NamedBy text) ∨
        lookup "STORE_BACKEND" = none ∧ b = (preset (Stage.ofText (lookup "APP_ENV"))).backend := by
  unfold readBackend
  cases lookup "STORE_BACKEND" with
  | none => simp [eq_comm]
  | some text => simp [Backend.ofText_eq_ok_iff]

theorem readBackend_eq_error_iff {e : SettingsError} :
    readBackend lookup = .error e ↔ ∃ text, lookup "STORE_BACKEND" = some text ∧
      (∀ b : Backend, ¬ b.NamedBy text) ∧ e = .unknownBackend text := by
  unfold readBackend
  cases lookup "STORE_BACKEND" with
  | none => simp
  | some text => simp [Backend.ofText_eq_error_iff]

/-- What is read is what the variables say. -/
theorem resolved_readWith {backend : Backend} (h : readBackend lookup = .ok backend) :
    Resolved lookup (readWith lookup backend) where
  production := Stage.ofText_eq_production_iff
  staging := Stage.ofText_eq_staging_iff
  backend := readBackend_eq_ok_iff.mp h
  number n := number_eq_iff.mp (value_readWith n backend).symm
  text t v := by rw [text_readWith]; exact nonEmpty_eq_some_iff

theorem Resolved.stage_eq (h : Resolved lookup s) : s.stage = Stage.ofText (lookup "APP_ENV") := by
  have hproduction := h.production.trans Stage.ofText_eq_production_iff.symm
  have hstaging := h.staging.trans Stage.ofText_eq_staging_iff.symm
  generalize Stage.ofText (lookup "APP_ENV") = stage at hproduction hstaging
  cases hs : s.stage <;> cases stage <;> simp_all

/-- What the variables say is what is read. -/
theorem Resolved.eq_readWith (h : Resolved lookup s) : s = readWith lookup s.backend := by
  have hnumber (n : NumericSetting) : n.value s = readNumber lookup n := by
    rw [readNumber, ← h.stage_eq]
    exact (number_eq_iff.mpr (h.number n)).symm
  have htext (t : TextSetting) : t.value s = readText lookup t :=
    Option.ext fun v => (h.text t v).trans nonEmpty_eq_some_iff.symm
  have hstage := h.stage_eq
  obtain ⟨stage, backend, endpoint, secret, timeout, databaseUrl, maxConnections, maxBody,
    maxDepth⟩ := s
  obtain rfl : stage = _ := hstage
  obtain rfl : endpoint = _ := htext .endpoint
  obtain rfl : secret = _ := htext .secret
  obtain rfl : timeout = _ := hnumber .timeout
  obtain rfl : databaseUrl = _ := htext .databaseUrl
  obtain rfl : maxConnections = _ := hnumber .maxConnections
  obtain rfl : maxBody = _ := hnumber .maxBody
  obtain rfl : maxDepth = _ := hnumber .maxDepth
  rfl

/-- An environment gives the settings that its variables say, and no others. -/
theorem ofEnvironment_eq_ok_iff : ofEnvironment lookup = .ok s ↔ Resolved lookup s := by
  rw [ofEnvironment_eq]
  constructor
  · intro h
    cases hbackend : readBackend lookup with
    | error e => rw [hbackend] at h; cases h
    | ok backend =>
      rw [hbackend] at h
      cases h
      exact resolved_readWith hbackend
  · intro h
    have hbackend : readBackend lookup = .ok s.backend := by
      rw [readBackend_eq_ok_iff, ← h.stage_eq]
      exact h.backend
    rw [hbackend, h.eq_readWith]
    rfl

/-- An environment gives no settings exactly if the text for the kind of store names none. -/
theorem ofEnvironment_eq_error_iff {e : SettingsError} :
    ofEnvironment lookup = .error e ↔ ∃ text, lookup "STORE_BACKEND" = some text ∧
      (∀ b : Backend, ¬ b.NamedBy text) ∧ e = .unknownBackend text := by
  rw [ofEnvironment_eq, ← readBackend_eq_error_iff]
  cases readBackend lookup <;> simp [Except.map]

end Settings
end TenantRegistry
