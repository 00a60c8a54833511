import RecordDispatch.Config.Shown

/-!
# The credential of the configuration stays secret

The environment names the credential in one variable.  Setting it changes one
field of the configuration that is loaded, and nothing else: neither whether the
others can be read nor which of them is the error (`load_assign_apiKey`).  The
printed configuration has a placeholder for that field (`shown_withKey`), so that
two credentials cannot be told apart by it.
-/

namespace RecordDispatch

/-! ## Variables that are set -/

namespace Environment

variable (env : Environment) (name value other : String)

/-- The environment without a variable. -/
def unset : Environment :=
  env.filter fun e => e.1 != name

/-- The environment in which a variable has a value. -/
def assign : Environment :=
  (name, value) :: env.unset name

theorem lookup_unset :
    (env.unset name).lookup other = if other = name then none else env.lookup other := by
  unfold unset
  induction env with
  | nil => exact (ite_self _).symm
  | cons e env ih =>
    obtain ⟨n, v⟩ := e
    by_cases ho : other = n
    · subst ho
      by_cases hn : other = name
      · simpa [hn] using ih
      · simp [hn]
    · have hne : (other == n) = false := beq_eq_false_iff_ne.mpr ho
      by_cases hn : n = name
      · simpa [hn, List.lookup_cons, hn ▸ hne] using ih
      · simpa [hn, List.lookup_cons, hne] using ih

theorem lookup_assign :
    (env.assign name value).lookup other =
      if other = name then some value else env.lookup other := by
  rw [assign, List.lookup_cons, lookup_unset]
  by_cases ho : other = name
  · simp [ho]
  · simp [ho, beq_eq_false_iff_ne.mpr ho]

section Reading

variable {α : Type} (default : String) (read : String → Option α)

variable {name other}

/-- A setting is not affected by another variable. -/
theorem setting_assign_of_ne (h : other ≠ name) :
    (env.assign name value).setting other default read =
      (env.unset name).setting other default read := by
  rw [setting, setting, lookup_assign, lookup_unset, if_neg h, if_neg h]

theorem optional_assign_of_ne (h : other ≠ name) :
    (env.assign name value).optional other read = (env.unset name).optional other read := by
  rw [optional, optional, lookup_assign, lookup_unset, if_neg h, if_neg h]

/-- A variable that is set to a text that can be read is there. -/
theorem optional_assign {a : α} (h : read value = some a) :
    (env.assign name value).optional name read = .ok (some a) := by
  simp only [optional, lookup_assign, if_true, h]

theorem optional_unset : (env.unset name).optional name read = .ok none := by
  simp only [optional, lookup_unset, if_true]

end Reading

end Environment

/-! ## Loading -/

namespace Config

open Environment

/-- The variable of the credential. -/
def apiKey : String :=
  "DEFAULT_API_KEY"

/-- The configuration with a credential. -/
def withKey (c : Config) (key : String) : Config :=
  { c with defaultApiKey := some ⟨key⟩ }

/-- Setting the credential changes the configuration that is loaded in its field
only, and it has no part in what cannot be read. -/
theorem load_assign_apiKey (env : Environment) (key : String) :
    load (env.assign apiKey key) = (·.withKey key) <$> load (env.unset apiKey) := by
  have hkey : (env.assign apiKey key).optional apiKey (fun s => some (⟨s⟩ : Secret)) =
      .ok (some ⟨key⟩) := env.optional_assign key _ rfl
  have hnone : (env.unset apiKey).optional apiKey (fun s => some (⟨s⟩ : Secret)) =
      .ok none := env.optional_unset _
  unfold apiKey at hkey hnone
  unfold load apiKey
  simp (disch := decide) only [setting_assign_of_ne, optional_assign_of_ne, hkey, hnone,
    map_bind, map_pure]
  rfl

/-! ## What the credential shows in -/

section WithKey

variable (key : String) (c : Config)

/-- Every credential is printed alike. -/
theorem shown_withKey (other : String) : (c.withKey key).shown = (c.withKey other).shown := rfl

/-- A key is used as it is, unless it holds nothing but blanks. -/
theorem defaultAuthentication_withKey :
    (c.withKey key).defaultAuthentication =
      if key.toList.all Text.isBlank then none else some (.apiKey key) := rfl

end WithKey

/-- Two credentials make no difference to what is loaded but for the credential
itself.  Loading fails alike for both, and also without a credential, or it
succeeds for both.  Then the configurations differ in the key only and are
printed alike, and each has its own key as the credential of records that carry
none, exactly as it was given, unless the key holds nothing but blanks. -/
theorem key_never_shown (env : Environment) (k₁ k₂ : String) :
    (∃ e, load (env.assign apiKey k₁) = .error e ∧ load (env.assign apiKey k₂) = .error e ∧
        load (env.unset apiKey) = .error e) ∨
      ∃ c₁ c₂, load (env.assign apiKey k₁) = .ok c₁ ∧ load (env.assign apiKey k₂) = .ok c₂ ∧
        c₂ = c₁.withKey k₂ ∧ c₁.shown = c₂.shown ∧
        c₁.defaultAuthentication =
          (if k₁.toList.all Text.isBlank then none else some (.apiKey k₁)) ∧
        c₂.defaultAuthentication =
          (if k₂.toList.all Text.isBlank then none else some (.apiKey k₂)) := by
  rw [load_assign_apiKey, load_assign_apiKey]
  cases load (env.unset apiKey) with
  | error e => exact .inl ⟨e, rfl, rfl, rfl⟩
  | ok c =>
    exact .inr ⟨c.withKey k₁, c.withKey k₂, rfl, rfl, rfl, c.shown_withKey k₁ k₂,
      c.defaultAuthentication_withKey k₁, c.defaultAuthentication_withKey k₂⟩

/-- An environment that names a topic and a way of dispatching loads with either
of two keys. -/
theorem key_never_shown_sample :
    let env : Environment := [("KAFKA_CONSUMER_TOPIC", "jobs"), ("DISPATCH_MODE", "unordered")]
    ∃ c₁ c₂, load (env.assign apiKey "alpha") = .ok c₁ ∧
      load (env.assign apiKey "beta") = .ok c₂ ∧ c₁.topic = "jobs" ∧ c₁.shown = c₂.shown ∧
        c₁.defaultAuthentication = some (.apiKey "alpha") ∧
        c₂.defaultAuthentication = some (.apiKey "beta") := by
  intro env
  have hloads : (load (env.assign apiKey "alpha")).toOption.map (·.topic) = some "jobs" := by
    decide
  obtain ⟨e, he, -⟩ | ⟨c₁, c₂, h₁, h₂, -, hshown, halpha, hbeta⟩ :=
    key_never_shown env "alpha" "beta"
  · rw [he] at hloads
    exact absurd hloads nofun
  · rw [h₁] at hloads
    exact ⟨c₁, c₂, h₁, h₂, Option.some.inj hloads, hshown, halpha, hbeta⟩

end Config

end RecordDispatch
