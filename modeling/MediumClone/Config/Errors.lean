import MediumClone.Config.DatabaseConfig

/-!
# Config — Errors

Which exceptions escape from `getTestDatabaseConfig`.

Its helpers are partial: `new URL` throws on a text that is no URL, and `decodeURIComponent` on a
malformed escape.  The first is called on URLs that have been checked (`typed_hasAmbiguous`).  The
second is called on the paths of two URLs that overlap, which no check has looked at; so a
`URIError` escapes exactly when one of these paths does not decode (`typedOutcome_iff`).
-/

namespace MediumClone.Config
open Js

/-- Only a `DatabaseConfigValidationError` is thrown. -/
def Typed {α : Type} (x : Except ConfigError α) : Prop :=
  ∀ e, x = .error e → ∃ message, e = .validation message

variable {rt : Runtime} {environment : ProcessEnv} {url url' : Str} {first second : URL}

section

variable {α β : Type} {x : Except ConfigError α} {f : α → Except ConfigError β}
  {condition : Except ConfigError Bool} {message : String} {rest : Unit → Except ConfigError α}

theorem typed_ok (a : α) : Typed (.ok a) := nofun

theorem typed_validation (message : String) :
    Typed (.error (.validation message) : Except ConfigError α) := by
  intro e h
  cases h
  exact ⟨message, rfl⟩

theorem typed_bind_iff : Typed (x >>= f) ↔ Typed x ∧ ∀ a, x = .ok a → Typed (f a) := by
  cases x with
  | error e =>
      refine ⟨fun h => ⟨fun e' he' => h e' (by cases he'; rfl), nofun⟩, fun h e' he' => h.1 e' ?_⟩
      cases he'
      rfl
  | ok a =>
      refine ⟨fun h => ⟨typed_ok a, ?_⟩, fun h => h.2 a rfl⟩
      rintro _ ⟨⟩
      exact h

theorem typed_rejectIf_bind_iff : Typed (rejectIf condition message >>= rest) ↔
    Typed condition ∧ (condition = .ok false → Typed (rest ())) := by
  rw [typed_bind_iff]
  cases condition with
  | error e =>
      refine and_congr ?_ ⟨nofun, nofun⟩
      exact ⟨fun h e' he' => h e' (by cases he'; rfl), fun h e' he' => h e' (by cases he'; rfl)⟩
  | ok b =>
      cases b with
      | true => exact ⟨fun _ => ⟨typed_ok true, nofun⟩, fun _ => ⟨typed_validation message, nofun⟩⟩
      | false =>
          refine ⟨fun h => ⟨typed_ok false, fun _ => h.2 () rfl⟩, fun h => ⟨typed_ok (), ?_⟩⟩
          rintro ⟨⟩ _
          exact h.2 rfl

end

/-! ### The helpers -/

theorem exists_url_of_isPostgresUrl (h : isPostgresUrl rt url = true) :
    ∃ parsed, rt.newURL url = some parsed := by
  rw [isPostgresUrl] at h
  cases hparsed : rt.newURL url with
  | none =>
      rw [hparsed] at h
      cases h
  | some parsed => exact ⟨parsed, rfl⟩

theorem typed_getDatabaseConfig (environment : ProcessEnv) :
    Typed (getDatabaseConfig rt environment) := by
  rw [getDatabaseConfig]
  split
  · exact typed_validation _
  · split
    · exact typed_ok _
    · exact typed_validation _

/-- A URL that has been checked is parsed again. -/
theorem typed_hasAmbiguous (h : isPostgresUrl rt url = true) :
    Typed (hasAmbiguousTargetOverrides rt url) := by
  obtain ⟨parsed, hparsed⟩ := exists_url_of_isPostgresUrl h
  rw [hasAmbiguousTargetOverrides, hparsed]
  exact typed_ok _

/-- A host and a port of the two URLs are the same. -/
structure Overlap (rt : Runtime) (first second : URL) : Prop where
  host : ∃ host ∈ connectionHosts rt first, host ∈ connectionHosts rt second
  port : ∃ port ∈ connectionPorts first, port ∈ connectionPorts second

theorem overlap_iff : Overlap rt first second ↔
    ((connectionHosts rt first).any (connectionHosts rt second).contains &&
      (connectionPorts first).any (connectionPorts second).contains) = true := by
  rw [Bool.and_eq_true, List.any_eq_true, List.any_eq_true]
  simp only [List.contains_iff_mem]
  exact ⟨fun h => ⟨h.host, h.port⟩, fun h => ⟨h.1, h.2⟩⟩

/-- Both paths decode. -/
def Decodable (first second : URL) : Prop :=
  decodeURIComponent first.pathname ≠ none ∧ decodeURIComponent second.pathname ≠ none

/-- The paths are read only when the URLs overlap. -/
theorem typed_sameDatabaseTarget_iff (h : rt.newURL url = some first)
    (h' : rt.newURL url' = some second) :
    Typed (sameDatabaseTarget rt url url') ↔
      (Overlap rt first second → Decodable first second) := by
  rw [sameDatabaseTarget, h, h']
  dsimp only
  by_cases hoverlap : Overlap rt first second
  · rw [if_pos (overlap_iff.mp hoverlap), Decodable]
    cases decodeURIComponent first.pathname with
    | none =>
        refine ⟨fun h => ?_, fun h => absurd rfl (h hoverlap).1⟩
        obtain ⟨message, hmessage⟩ := h _ rfl
        cases hmessage
    | some firstPath =>
        cases decodeURIComponent second.pathname with
        | none =>
            refine ⟨fun h => ?_, fun h => absurd rfl (h hoverlap).2⟩
            obtain ⟨message, hmessage⟩ := h _ rfl
            cases hmessage
        | some secondPath =>
            exact ⟨fun _ _ => ⟨Option.some_ne_none _, Option.some_ne_none _⟩, fun _ => typed_ok _⟩
  · rw [if_neg (mt overlap_iff.mpr hoverlap)]
    exact ⟨fun _ h => absurd h hoverlap, fun _ => typed_ok _⟩

/-! ### The guard -/

/-- The test URL is returned, or a `DatabaseConfigValidationError` is thrown. -/
def TypedOutcome (rt : Runtime) (environment : ProcessEnv) : Prop :=
  (∃ config, getTestDatabaseConfig rt environment = .ok config ∧
    environment.testDatabaseUrl = some config.url) ∨
  ∃ message, getTestDatabaseConfig rt environment = .error (.validation message)

/-- Two acceptable URLs that overlap have paths that decode. -/
def PathsDecode (rt : Runtime) (environment : ProcessEnv) : Prop :=
  ∀ testUrl applicationUrl first second, truthy environment.testDatabaseUrl = some testUrl →
    truthy environment.databaseUrl = some applicationUrl →
    Acceptable rt testUrl → Acceptable rt applicationUrl →
    rt.newURL testUrl = some first → rt.newURL applicationUrl = some second →
    Overlap rt first second → Decodable first second

theorem typedOutcome_iff_typed :
    TypedOutcome rt environment ↔ Typed (getTestDatabaseConfig rt environment) := by
  constructor
  · rintro (⟨config, hok, -⟩ | ⟨message, herror⟩)
    · rw [hok]
      exact typed_ok config
    · rw [herror]
      exact typed_validation message
  · intro h
    cases hresult : getTestDatabaseConfig rt environment with
    | ok config => exact .inl ⟨config, hresult, (getTestDatabaseConfig_ok.mp hresult).1⟩
    | error e =>
        obtain ⟨message, rfl⟩ := h e hresult
        exact .inr ⟨message, hresult⟩

/-- The checks before let acceptable URLs through, and throw validation errors only. -/
theorem typed_getTestDatabaseConfig_iff {testUrl : Str}
    (htest : truthy environment.testDatabaseUrl = some testUrl) :
    Typed (getTestDatabaseConfig rt environment) ↔
      ∀ applicationUrl, truthy environment.databaseUrl = some applicationUrl →
        Acceptable rt testUrl → Acceptable rt applicationUrl →
        Typed (sameDatabaseTarget rt testUrl applicationUrl) := by
  have htruthy : truthy (some testUrl) = some testUrl :=
    truthy_eq_some.mpr ⟨rfl, (truthy_eq_some.mp htest).2⟩
  rw [getTestDatabaseConfig, htest]
  dsimp only
  constructor
  · intro h applicationUrl happlication hacc hacc'
    have h := (typed_bind_iff.mp h).2 ⟨testUrl⟩ (getDatabaseConfig_ok.mpr ⟨htruthy, hacc.1⟩)
    have h := (typed_rejectIf_bind_iff.mp h).2 hacc.2
    rw [happlication] at h
    have h := (typed_rejectIf_bind_iff.mp h).2 (by rw [hacc'.1]; rfl)
    have h := (typed_rejectIf_bind_iff.mp h).2 hacc'.2
    exact (typed_rejectIf_bind_iff.mp h).1
  · intro h
    refine typed_bind_iff.mpr ⟨typed_getDatabaseConfig _, fun config hconfig => ?_⟩
    obtain ⟨hurl, hpg⟩ := getDatabaseConfig_ok.mp hconfig
    obtain rfl : testUrl = config.url := Option.some.inj (htruthy.symm.trans hurl)
    refine typed_rejectIf_bind_iff.mpr ⟨typed_hasAmbiguous hpg, fun hambiguous => ?_⟩
    cases happlication : truthy environment.databaseUrl with
    | none => exact typed_ok _
    | some applicationUrl =>
        refine typed_rejectIf_bind_iff.mpr ⟨typed_ok _, fun hpg' => ?_⟩
        have hpg' : isPostgresUrl rt applicationUrl = true := by simpa using hpg'
        refine typed_rejectIf_bind_iff.mpr ⟨typed_hasAmbiguous hpg', fun hambiguous' => ?_⟩
        exact typed_rejectIf_bind_iff.mpr ⟨h applicationUrl happlication ⟨hpg, hambiguous⟩
          ⟨hpg', hambiguous'⟩, fun _ => typed_ok _⟩

/-- **Typed errors.**  The guard returns the test URL or throws a `DatabaseConfigValidationError`,
exactly when acceptable URLs that overlap have paths that decode. -/
theorem typedOutcome_iff (rt : Runtime) (environment : ProcessEnv) :
    TypedOutcome rt environment ↔ PathsDecode rt environment := by
  rw [typedOutcome_iff_typed]
  cases htest : truthy environment.testDatabaseUrl with
  | none =>
      rw [getTestDatabaseConfig, htest]
      refine ⟨fun _ _ _ _ _ h => ?_, fun _ => typed_validation _⟩
      rw [htest] at h
      cases h
  | some testUrl =>
      rw [typed_getTestDatabaseConfig_iff htest]
      constructor
      · intro h testUrl' applicationUrl first second htest' happlication hacc hacc' hfirst hsecond
        cases htest.symm.trans htest'
        exact (typed_sameDatabaseTarget_iff hfirst hsecond).mp (h _ happlication hacc hacc')
      · intro h applicationUrl happlication hacc hacc'
        obtain ⟨first, hfirst⟩ := exists_url_of_isPostgresUrl hacc.1
        obtain ⟨second, hsecond⟩ := exists_url_of_isPostgresUrl hacc'.1
        exact (typed_sameDatabaseTarget_iff hfirst hsecond).mpr
          (h _ _ _ _ htest happlication hacc hacc' hfirst hsecond)

/-! ### A path that does not decode -/

def malformedUrl : Str := "postgresql://localhost/%zz".toList

def malformedRuntime : Runtime where
  newURL s :=
    if s = malformedUrl then
      some ⟨"postgresql:".toList, "localhost".toList, [], "/%zz".toList, []⟩
    else none
  newURL_nil := by decide
  toLowerCase := List.map Char.toLower

/-- The test URL is the application's, and is not told so. -/
theorem not_typedOutcome_malformed :
    getTestDatabaseConfig malformedRuntime
      { databaseUrl := some malformedUrl, testDatabaseUrl := some malformedUrl } =
        .error .uriError ∧
    ¬ TypedOutcome malformedRuntime
      { databaseUrl := some malformedUrl, testDatabaseUrl := some malformedUrl } := by
  have hresult : getTestDatabaseConfig malformedRuntime
      { databaseUrl := some malformedUrl, testDatabaseUrl := some malformedUrl } =
      .error .uriError := by decide +kernel
  refine ⟨hresult, ?_⟩
  rintro (⟨config, hok, -⟩ | ⟨message, herror⟩)
  · rw [hresult] at hok
    cases hok
  · rw [hresult] at herror
    cases herror

end MediumClone.Config
