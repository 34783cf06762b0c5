import TenantRegistry.Proofs.Settings.Resolution

/-!
The store that an environment chooses, and what is kept of its secrets.

A store is chosen exactly if its own settings are complete, and by few variables: those that all
stores have in common and the store's own. What is shown of the settings does not depend on the
secrets at all; the store, its secrets apart, and any error depend on whether they are set and on
nothing else of them. All this holds however the domain names in addresses are converted to ASCII.
Main statement: `resolves_apart`.
-/

namespace TenantRegistry

/-- The variables that a kind of store has for itself. -/
def Backend.variableNames : Backend → List String
  | .graphql => ["GRAPHQL_ENDPOINT", "HASURA_GRAPHQL_ADMIN_SECRET", "GRAPHQL_REQUEST_TIMEOUT_SECS"]
  | .postgres => ["DATABASE_URL", "DATABASE_MAX_CONNECTIONS"]
  | .memory => []

/-- The store without its secrets. -/
def StoreTarget.redacted : StoreTarget → StoreTarget
  | .graphql endpoint timeout => .graphql ⟨endpoint.url, ""⟩ timeout
  | .postgres _ maxConnections => .postgres "" maxConnections
  | .memory => .memory

namespace Settings

variable {toAscii : Web.Domain.ToAscii} {lookup lookup' : String → Option String} {s s' : Settings}

/-- The variables that count for every kind of store. -/
def commonNames : List String :=
  ["APP_ENV", "STORE_BACKEND", "DOCUMENT_MAX_DEPTH"]

example : (commonNames ++ Backend.graphql.variableNames ++ Backend.postgres.variableNames ++
    ["API_MAX_REQUEST_SIZE_BYTES"]).Perm variableNames := by decide

/-- The variables with secrets. -/
def secretNames : List String :=
  ["HASURA_GRAPHQL_ADMIN_SECRET", "DATABASE_URL"]

/-- The store that an environment chooses. -/
def chosen (toAscii : Web.Domain.ToAscii) (lookup : String → Option String) :
    Except SettingsError StoreTarget := do
  (← ofEnvironment lookup).target toAscii

/-- The settings are complete for a store, which is made of them. -/
def Supplies (toAscii : Web.Domain.ToAscii) (s : Settings) (t : StoreTarget) : Prop :=
  1 ≤ s.maxDepth ∧
    match t with
    | .graphql endpoint timeout => s.backend = .graphql ∧
      Web.Url.ofString (s.endpoint.getD defaultEndpoint) toAscii = .ok endpoint.url ∧
      s.secret = some endpoint.secret ∧ endpoint.secret ≠ "" ∧ s.timeout = timeout
    | .postgres url maxConnections => s.backend = .postgres ∧ s.databaseUrl = some url ∧ url ≠ "" ∧
      s.maxConnections = maxConnections ∧ 1 ≤ maxConnections
    | .memory => s.backend = .memory

/-- A variable has a text that is not empty. -/
def IsSet (lookup : String → Option String) (name : String) : Prop :=
  ∃ text, lookup name = some text ∧ text ≠ ""

/-- Two environments that are the same but for their secrets. -/
def SameButSecrets (lookup lookup' : String → Option String) : Prop :=
  ∀ name, name ∉ secretNames → lookup' name = lookup name

/-! ## What a store is made of -/

theorem bind_eq_ok_iff {ε α β : Type} {x : Except ε α} {f : α → Except ε β} {b : β} :
    x.bind f = .ok b ↔ ∃ a, x = .ok a ∧ f a = .ok b := by
  cases x <;> simp [Except.bind]

theorem mapError_eq_ok_iff {ε ε' α : Type} {x : Except ε α} {f : ε → ε'} {a : α} :
    x.mapError f = .ok a ↔ x = .ok a := by
  cases x <;> simp [Except.mapError]

theorem required_eq_ok_iff {name v : String} {text : Option String} :
    required name text = .ok v ↔ text = some v := by
  cases text <;> simp [required]

theorem target_of_maxDepth_eq_zero (h : s.maxDepth = 0) :
    s.target toAscii = .error (.invalid "DOCUMENT_MAX_DEPTH must be at least 1") := by
  unfold target
  cases s.backend <;> exact if_pos h

theorem target_of_graphql (hdepth : s.maxDepth ≠ 0) (hbackend : s.backend = .graphql) :
    s.target toAscii = ((Web.Url.ofString (s.endpoint.getD defaultEndpoint) toAscii).mapError
      (.invalidEndpoint (s.endpoint.getD defaultEndpoint))).bind fun url =>
        (required "HASURA_GRAPHQL_ADMIN_SECRET" s.secret).bind fun secret =>
          .ok (.graphql ⟨url, secret⟩ s.timeout) := by
  unfold target
  rw [hbackend]
  exact if_neg hdepth

theorem target_of_postgres (hdepth : s.maxDepth ≠ 0) (hbackend : s.backend = .postgres) :
    s.target toAscii = (required "DATABASE_URL" s.databaseUrl).bind fun url =>
      if s.maxConnections = 0 then
        .error (.invalid "DATABASE_MAX_CONNECTIONS must be at least 1")
      else .ok (.postgres url s.maxConnections) := by
  unfold target
  rw [hbackend]
  exact if_neg hdepth

theorem target_of_memory (hdepth : s.maxDepth ≠ 0) (hbackend : s.backend = .memory) :
    s.target toAscii = .ok .memory := by
  unfold target
  rw [hbackend]
  exact if_neg hdepth

theorem chosen_eq (toAscii : Web.Domain.ToAscii) (lookup : String → Option String) :
    chosen toAscii lookup =
      (readBackend lookup).bind fun backend => (readWith lookup backend).target toAscii := by
  rw [chosen, ofEnvironment_eq]
  cases readBackend lookup <;> rfl

/-- Settings of an environment choose a store exactly if they supply it. -/
theorem Resolved.target_eq_ok_iff (h : Resolved lookup s) {t : StoreTarget} :
    s.target toAscii = .ok t ↔ Supplies toAscii s t := by
  -- That a secret is not empty comes from the environment: `target` itself does not look at that.
  unfold Supplies
  by_cases hdepth : s.maxDepth = 0
  · simp [target_of_maxDepth_eq_zero hdepth, hdepth]
  rw [and_iff_right (show 1 ≤ s.maxDepth from Nat.pos_of_ne_zero hdepth)]
  cases hbackend : s.backend with
  | graphql =>
    simp only [target_of_graphql hdepth hbackend, bind_eq_ok_iff, mapError_eq_ok_iff,
      required_eq_ok_iff, Except.ok.injEq]
    constructor
    · rintro ⟨url, hurl, secret, hsecret, rfl⟩
      exact ⟨trivial, hurl, hsecret, ((h.text .secret secret).mp hsecret).2, rfl⟩
    · intro ht
      cases t with
      | graphql endpoint timeout =>
        obtain ⟨-, hurl, hsecret, -, rfl⟩ := ht
        exact ⟨_, hurl, _, hsecret, rfl⟩
      | postgres => cases ht.1
      | memory => cases ht
  | postgres =>
    simp only [target_of_postgres hdepth hbackend, bind_eq_ok_iff, required_eq_ok_iff]
    constructor
    · rintro ⟨url, hurl, ht⟩
      split at ht
      · cases ht
      · next hconnections =>
        cases ht
        exact ⟨trivial, hurl, ((h.text .databaseUrl url).mp hurl).2, rfl,
          Nat.pos_of_ne_zero hconnections⟩
    · intro ht
      cases t with
      | graphql => cases ht.1
      | postgres url maxConnections =>
        obtain ⟨-, hurl, -, rfl, hconnections⟩ := ht
        exact ⟨url, hurl, if_neg (Nat.ne_of_gt hconnections)⟩
      | memory => cases ht
  | memory =>
    rw [target_of_memory hdepth hbackend]
    cases t <;> simp

/-- Of the settings, a store depends on those that all stores have in common and its own. -/
theorem target_congr (hbackend : s'.backend = s.backend) (hdepth : s'.maxDepth = s.maxDepth)
    (hgraphql : s.backend = .graphql →
      s'.endpoint = s.endpoint ∧ s'.secret = s.secret ∧ s'.timeout = s.timeout)
    (hpostgres : s.backend = .postgres →
      s'.databaseUrl = s.databaseUrl ∧ s'.maxConnections = s.maxConnections) :
    s'.target toAscii = s.target toAscii := by
  unfold target
  rw [hbackend, hdepth]
  cases hs : s.backend with
  | graphql =>
    obtain ⟨hendpoint, hsecret, htimeout⟩ := hgraphql hs
    rw [hendpoint, hsecret, htimeout]
  | postgres =>
    obtain ⟨hurl, hconnections⟩ := hpostgres hs
    rw [hurl, hconnections]
  | memory => rfl

/-! ## What is read of other environments -/

theorem readBackend_congr (hstage : lookup' "APP_ENV" = lookup "APP_ENV")
    (hbackend : lookup' "STORE_BACKEND" = lookup "STORE_BACKEND") :
    readBackend lookup' = readBackend lookup := by
  rw [readBackend, readBackend, hstage, hbackend]

theorem readNumber_congr (hstage : lookup' "APP_ENV" = lookup "APP_ENV") {n : NumericSetting}
    (hnumber : lookup' n.variableName = lookup n.variableName) :
    readNumber lookup' n = readNumber lookup n := by
  rw [readNumber, readNumber, hstage, hnumber]

theorem readText_congr {t : TextSetting} (h : lookup' t.variableName = lookup t.variableName) :
    readText lookup' t = readText lookup t := by
  rw [readText, readText, h]

/-- The choice depends on the common variables and those of the kind of store that is chosen. -/
theorem chosen_congr (hcommon : ∀ name ∈ commonNames, lookup' name = lookup name)
    (hown : ∀ backend, readBackend lookup = .ok backend →
      ∀ name ∈ backend.variableNames, lookup' name = lookup name) :
    chosen toAscii lookup' = chosen toAscii lookup := by
  have hstage := hcommon "APP_ENV" (by simp [commonNames])
  have hbackend := readBackend_congr hstage (hcommon "STORE_BACKEND" (by simp [commonNames]))
  have hdepth : lookup' NumericSetting.maxDepth.variableName = _ :=
    hcommon "DOCUMENT_MAX_DEPTH" (by simp [commonNames])
  rw [chosen_eq, chosen_eq, hbackend]
  cases hread : readBackend lookup with
  | error e => rfl
  | ok backend =>
    have hnames := hown backend hread
    refine target_congr rfl (readNumber_congr hstage hdepth) (fun hgraphql => ?_)
      fun hpostgres => ?_
    · obtain rfl : backend = .graphql := hgraphql
      simp only [Backend.variableNames, List.forall_mem_cons] at hnames
      exact ⟨readText_congr hnames.1, readText_congr hnames.2.1,
        readNumber_congr hstage hnames.2.2.1⟩
    · obtain rfl : backend = .postgres := hpostgres
      simp only [Backend.variableNames, List.forall_mem_cons] at hnames
      exact ⟨readText_congr hnames.1, readNumber_congr hstage hnames.2.1⟩

/-! ## Secrets -/

/-- The settings with other secrets. -/
def withSecrets (s : Settings) (secret databaseUrl : Option String) : Settings :=
  { s with secret, databaseUrl }

/-- The settings with empty secrets in place of those that are set. -/
def redacted (s : Settings) : Settings :=
  s.withSecrets (s.secret.map fun _ => "") (s.databaseUrl.map fun _ => "")

theorem shown_withSecrets (s : Settings) (secret databaseUrl : Option String) :
    (s.withSecrets secret databaseUrl).shown = s.shown := rfl

/-- Settings with empty secrets choose the store that the settings choose, without its secrets. -/
theorem target_redacted (s : Settings) :
    s.redacted.target toAscii = (s.target toAscii).map StoreTarget.redacted := by
  by_cases hdepth : s.maxDepth = 0
  · rw [target_of_maxDepth_eq_zero hdepth, target_of_maxDepth_eq_zero (s := s.redacted) hdepth]
    rfl
  cases hbackend : s.backend with
  | graphql =>
    rw [target_of_graphql hdepth hbackend, target_of_graphql (s := s.redacted) hdepth hbackend]
    unfold redacted withSecrets
    dsimp only
    cases Web.Url.ofString (s.endpoint.getD defaultEndpoint) toAscii with
    | error problem => rfl
    | ok url => cases s.secret <;> rfl
  | postgres =>
    rw [target_of_postgres hdepth hbackend, target_of_postgres (s := s.redacted) hdepth hbackend]
    unfold redacted withSecrets
    dsimp only
    cases s.databaseUrl with
    | none => rfl
    | some url =>
      simp only [required, Option.map_some, Except.bind]
      split <;> rfl
  | memory =>
    rw [target_of_memory hdepth hbackend, target_of_memory (s := s.redacted) hdepth hbackend]
    rfl

theorem SameButSecrets.withSecrets_readWith (h : SameButSecrets lookup lookup')
    (backend : Backend) (secret databaseUrl : Option String) :
    (readWith lookup' backend).withSecrets secret databaseUrl =
      (readWith lookup backend).withSecrets secret databaseUrl := by
  have hstage : lookup' "APP_ENV" = lookup "APP_ENV" := h _ (by decide)
  have hnumber (n : NumericSetting) : readNumber lookup' n = readNumber lookup n :=
    readNumber_congr hstage (h _ (by cases n <;> decide))
  have hendpoint : readText lookup' .endpoint = readText lookup .endpoint :=
    readText_congr (h _ (by decide))
  simp only [withSecrets, readWith, hstage, hnumber, hendpoint]

theorem isSet_iff {t : TextSetting} :
    IsSet lookup t.variableName ↔ (readText lookup t).isSome = true := by
  simp only [IsSet, readText, Option.isSome_iff_exists, nonEmpty_eq_some_iff]

/-- Texts that are both set, or both not, are the same once they are emptied. -/
theorem map_empty_congr {t : TextSetting}
    (h : IsSet lookup' t.variableName ↔ IsSet lookup t.variableName) :
    ((readText lookup' t).map fun _ => "") = (readText lookup t).map fun _ => "" := by
  rw [isSet_iff, isSet_iff] at h
  cases hread : readText lookup t <;> cases hread' : readText lookup' t <;> simp_all

theorem SameButSecrets.redacted_readWith (h : SameButSecrets lookup lookup')
    (hset : ∀ name ∈ secretNames, IsSet lookup' name ↔ IsSet lookup name) (backend : Backend) :
    (readWith lookup' backend).redacted = (readWith lookup backend).redacted := by
  have hsecret : ((readWith lookup' backend).secret.map fun _ => "") = _ :=
    map_empty_congr (t := .secret) (hset _ (by decide))
  have hurl : ((readWith lookup' backend).databaseUrl.map fun _ => "") = _ :=
    map_empty_congr (t := .databaseUrl) (hset _ (by decide))
  rw [redacted, hsecret, hurl, h.withSecrets_readWith]
  rfl

theorem SameButSecrets.readBackend (h : SameButSecrets lookup lookup') :
    readBackend lookup' = readBackend lookup :=
  readBackend_congr (h _ (by decide)) (h _ (by decide))

/-- What is shown of the settings, or the error, has nothing of the secrets. -/
theorem SameButSecrets.shown (h : SameButSecrets lookup lookup') :
    (ofEnvironment lookup').map shown = (ofEnvironment lookup).map shown := by
  rw [ofEnvironment_eq, ofEnvironment_eq, h.readBackend]
  cases Settings.readBackend lookup with
  | error e => rfl
  | ok backend =>
    -- Nothing that is shown changes if both lose their secrets, and then they are the same.
    refine congrArg Except.ok ?_
    rw [← shown_withSecrets _ none none, h.withSecrets_readWith, shown_withSecrets]

/-- The store without its secrets, or the error, has nothing of the secrets but whether they are
set. -/
theorem SameButSecrets.chosen (h : SameButSecrets lookup lookup')
    (hset : ∀ name ∈ secretNames, IsSet lookup' name ↔ IsSet lookup name) :
    (chosen toAscii lookup').map StoreTarget.redacted =
      (chosen toAscii lookup).map StoreTarget.redacted := by
  rw [chosen_eq, chosen_eq, h.readBackend]
  cases Settings.readBackend lookup with
  | error e => rfl
  | ok backend =>
    show (target _ toAscii).map _ = (target _ toAscii).map _
    rw [← target_redacted, ← target_redacted, h.redacted_readWith hset]

/-! ## The settings and the store together -/

/-- What an environment decides: each setting by the stage and a variable of its own, the store by
the variables of its kind, and what is shown by no secret. -/
structure ResolvesApart (toAscii : Web.Domain.ToAscii) (lookup : String → Option String) : Prop where
  /-- No settings, exactly if the text for the kind of store names none. -/
  refused : ∀ e, ofEnvironment lookup = .error e ↔ ∃ text, lookup "STORE_BACKEND" = some text ∧
    (∀ b : Backend, ¬ b.NamedBy text) ∧ e = .unknownBackend text
  resolved : ∀ s, ofEnvironment lookup = .ok s ↔ Resolved lookup s
  /-- No variable counts for a number but its own and the one for the stage. -/
  number : ∀ lookup' s s', ofEnvironment lookup = .ok s → ofEnvironment lookup' = .ok s' →
    lookup' "APP_ENV" = lookup "APP_ENV" → ∀ n : NumericSetting,
      lookup' n.variableName = lookup n.variableName → n.value s' = n.value s
  text : ∀ lookup' s s', ofEnvironment lookup = .ok s → ofEnvironment lookup' = .ok s' →
    ∀ t : TextSetting, lookup' t.variableName = lookup t.variableName → t.value s' = t.value s
  supplied : ∀ t, chosen toAscii lookup = .ok t ↔ ∃ s, Resolved lookup s ∧ Supplies toAscii s t
  /-- The same store, or the same error, if the variables for all stores and for the kind that is
  chosen are the same. -/
  own : ∀ lookup', (∀ name ∈ commonNames, lookup' name = lookup name) →
    (∀ s, ofEnvironment lookup = .ok s →
      ∀ name ∈ s.backend.variableNames, lookup' name = lookup name) →
    chosen toAscii lookup' = chosen toAscii lookup
  /-- What is shown, or the error, does not depend on the secrets. -/
  shown : ∀ lookup', SameButSecrets lookup lookup' →
    (ofEnvironment lookup').map Settings.shown = (ofEnvironment lookup).map Settings.shown
  /-- The same store up to its secrets, or the same error, if the same secrets are set. -/
  secret : ∀ lookup', SameButSecrets lookup lookup' →
    (∀ name ∈ secretNames, IsSet lookup' name ↔ IsSet lookup name) →
    (chosen toAscii lookup').map StoreTarget.redacted =
      (chosen toAscii lookup).map StoreTarget.redacted

theorem chosen_eq_ok_iff {t : StoreTarget} :
    chosen toAscii lookup = .ok t ↔ ∃ s, Resolved lookup s ∧ Supplies toAscii s t := by
  have hopen : chosen toAscii lookup = .ok t ↔
      ∃ s, ofEnvironment lookup = .ok s ∧ s.target toAscii = .ok t :=
    bind_eq_ok_iff
  rw [hopen]
  refine exists_congr fun s => ?_
  rw [ofEnvironment_eq_ok_iff]
  exact and_congr_right fun h => h.target_eq_ok_iff

/-- Every environment decides each setting and each store apart. -/
theorem resolves_apart (toAscii : Web.Domain.ToAscii) (lookup : String → Option String) :
    ResolvesApart toAscii lookup where
  refused e := ofEnvironment_eq_error_iff
  resolved s := ofEnvironment_eq_ok_iff
  number lookup' s s' hs hs' hstage n hnumber := by
    rw [(ofEnvironment_eq_ok_iff.mp hs).eq_readWith, (ofEnvironment_eq_ok_iff.mp hs').eq_readWith,
      value_readWith, value_readWith, readNumber_congr hstage hnumber]
  text lookup' s s' hs hs' t htext := by
    rw [(ofEnvironment_eq_ok_iff.mp hs).eq_readWith, (ofEnvironment_eq_ok_iff.mp hs').eq_readWith,
      text_readWith, text_readWith, readText_congr htext]
  supplied t := chosen_eq_ok_iff
  own lookup' hcommon hown := chosen_congr hcommon fun backend hread =>
    hown _ (ofEnvironment_eq_ok_iff.mpr (resolved_readWith hread))
  shown lookup' h := h.shown
  secret lookup' h hset := h.chosen hset

/-! ## An example -/

/-- An environment with two secrets, in which most texts are not quite what they should be. -/
def untidy (secret url : String) (name : String) : Option String :=
  [("APP_ENV", "stage"), ("STORE_BACKEND", " HaSuRa\t"), ("HASURA_GRAPHQL_ADMIN_SECRET", secret),
    ("GRAPHQL_REQUEST_TIMEOUT_SECS", "+007"), ("DATABASE_URL", url),
    ("DATABASE_MAX_CONNECTIONS", "4294967296"), ("API_MAX_REQUEST_SIZE_BYTES", " 5"),
    ("DOCUMENT_MAX_DEPTH", "8")].lookup name

theorem untidy_same {secret url secret' url' : String} :
    SameButSecrets (untidy secret url) (untidy secret' url') := by
  intro name h
  simp only [secretNames, List.mem_cons, List.not_mem_nil, or_false, not_or] at h
  simp only [untidy, List.lookup, beq_false_of_ne h.1, beq_false_of_ne h.2]

/-- The settings of an environment. Another address of a database changes nothing of the store;
other secrets change nothing that is shown, and of the store only the secret. -/
theorem resolves_apart_untidy :
    (∃ s, ofEnvironment (untidy "a" "") = .ok s ∧ Resolved (untidy "a" "") s ∧ s.stage = .staging ∧
      s.backend = .graphql ∧ s.endpoint = none ∧ s.secret = some "a" ∧ s.timeout = 7 ∧
      s.databaseUrl = none ∧ s.maxConnections = 20 ∧ s.maxBody = 5242880 ∧ s.maxDepth = 8) ∧
    (∀ url, chosen Web.Domain.toAscii? (untidy "a" url) =
      chosen Web.Domain.toAscii? (untidy "a" "")) ∧
    (∀ secret url, (ofEnvironment (untidy secret url)).map Settings.shown =
      (ofEnvironment (untidy "a" "")).map Settings.shown) ∧
    (chosen Web.Domain.toAscii? (untidy "b" "")).map StoreTarget.redacted =
      (chosen Web.Domain.toAscii? (untidy "a" "")).map StoreTarget.redacted := by
  have hread : ofEnvironment (untidy "a" "") =
      .ok ⟨.staging, .graphql, none, some "a", 7, none, 20, 5242880, 8⟩ := rfl
  have hapart := resolves_apart Web.Domain.toAscii? (untidy "a" "")
  refine ⟨⟨_, hread, (hapart.resolved _).mp hread, rfl, rfl, rfl, rfl, rfl, rfl, rfl, rfl, rfl⟩,
    fun url => hapart.own _ ?_ fun s hs => ?_, fun secret url => hapart.shown _ untidy_same,
    hapart.secret _ untidy_same ?_⟩
  · simp only [commonNames, List.forall_mem_cons, List.not_mem_nil, false_imp_iff, implies_true]
    exact ⟨rfl, rfl, rfl, trivial⟩
  · cases hread.symm.trans hs
    simp only [Backend.variableNames, List.forall_mem_cons, List.not_mem_nil, false_imp_iff,
      implies_true]
    exact ⟨rfl, rfl, rfl, trivial⟩
  · simp only [secretNames, List.forall_mem_cons, List.not_mem_nil, false_imp_iff, implies_true]
    exact ⟨iff_of_true ⟨"b", rfl, by decide⟩ ⟨"a", rfl, by decide⟩, Iff.rfl, trivial⟩

end Settings
end TenantRegistry
