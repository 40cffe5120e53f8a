import MediumClone.Support.JsText

/-!
# Config — DatabaseConfig

`src/config/database-config.ts`: the two database settings and the guard between them.
`getTestDatabaseConfig` hands out the test database's URL only when it does not name the
application's database, which `sameDatabaseTarget` decides on the two parsed URLs.

What the code takes from Node is a `Runtime`: the WHATWG URL parser and `toLowerCase`.  Nothing
is assumed of the parser except that the empty string is no URL; a parsed URL is the record of
the getters the code reads.  Exceptions are values of `ConfigError`: the class the file declares,
the `TypeError` of `new URL` and the `URIError` of `decodeURIComponent`.

The lemma to use is `getTestDatabaseConfig_ok`: it says on which environments the guard returns.
-/

namespace MediumClone.Config
open Js

/-- The getters of a parsed URL that are read: `port` is empty when the URL has none. -/
structure URL where
  protocol : Str
  hostname : Str
  port : Str
  pathname : Str
  searchParams : List (Str × Str)
  deriving DecidableEq

/-- `searchParams.getAll(name)`. -/
def URL.getAll (url : URL) (name : Str) : List Str :=
  (url.searchParams.filter fun p => p.1 = name).map Prod.snd

/-- `searchParams.get(name)`. -/
def URL.get (url : URL) (name : Str) : Option Str := (url.getAll name).head?

/-- `new URL` (`none` where it throws and `URL.canParse` is false) and `toLowerCase`. -/
structure Runtime where
  newURL : Str → Option URL
  newURL_nil : newURL [] = none
  toLowerCase : Str → Str

/-- The variables the database commands read; `none` is a variable that is not set. -/
structure ProcessEnv where
  databaseUrl : Option Str := none
  testDatabaseUrl : Option Str := none
  confirmDatabaseReset : Option Str := none
  deriving DecidableEq

/-- A variable as a condition sees it: unset and empty are both false. -/
def truthy (value : Option Str) : Option Str := value.filter fun s => !s.isEmpty

structure DatabaseConfig where
  url : Str
  deriving DecidableEq

inductive ConfigError where
  | validation (message : String)
  | typeError
  | uriError
  deriving DecidableEq

section Code

variable (rt : Runtime)

/-! ### The code -/

def isPostgresUrl (url : Str) : Bool :=
  match rt.newURL url with
  | none => false
  | some parsedUrl =>
    ["postgres:".toList, "postgresql:".toList].contains parsedUrl.protocol &&
      0 < parsedUrl.hostname.length && 1 < parsedUrl.pathname.length

def getDatabaseConfig (environment : ProcessEnv) : Except ConfigError DatabaseConfig :=
  match truthy environment.databaseUrl with
  | none => .error (.validation "DATABASE_URL is required")
  | some url =>
    if isPostgresUrl rt url then .ok ⟨url⟩
    else .error (.validation "DATABASE_URL must be PostgreSQL")

/-- What makes one comma-separated part of a `host` or `port` parameter unacceptable. -/
def ambiguousPart (parameter part : Str) : Bool :=
  if (trim part).isEmpty then true
  else if parameter ≠ "port".toList then false
  else !isDigits part || number part < 1 || number part > 65535

def hasAmbiguousTargetOverrides (connectionUrl : Str) : Except ConfigError Bool :=
  match rt.newURL connectionUrl with
  | none => .error .typeError
  | some url =>
    .ok <| ["host".toList, "port".toList].any fun parameter =>
      1 < (url.getAll parameter).length ||
        (url.getAll parameter).any fun value =>
          (value.splitOn ',').any (ambiguousPart parameter)

/-- `.replace(/^\[|\]$/g, '').replace(/\.$/, '')`. -/
def stripHost (host : Str) : Str :=
  let host := if host.head? = some '[' then host.tail else host
  let host := if host.getLast? = some ']' then host.dropLast else host
  if host.getLast? = some '.' then host.dropLast else host

def normalizeDatabaseHost (hostname : Str) : Str :=
  let host := stripHost (rt.toLowerCase hostname)
  if host = "localhost".toList ∨ host = "::1".toList ∨ "127.".toList <+: host then
    "loopback".toList
  else host

/-- The host list before normalisation. -/
def hostSpellings (url : URL) : List Str :=
  ((url.get "host".toList).getD url.hostname).splitOn ','

def connectionHosts (url : URL) : List Str := (hostSpellings url).map (normalizeDatabaseHost rt)

/-- The port list before `parseInt`. -/
def portSpellings (url : URL) : List Str :=
  ((url.get "port".toList).getD (if url.port.isEmpty then "5432".toList else url.port)).splitOn ','

/-- The ports as `String(Number.parseInt(port, 10))` tells them apart. -/
def connectionPorts (url : URL) : List (Option Int) := (portSpellings url).map parseInt

/-- `&&` reads the two paths only when hosts and ports overlap. -/
def sameDatabaseTarget (firstUrl secondUrl : Str) : Except ConfigError Bool :=
  match rt.newURL firstUrl, rt.newURL secondUrl with
  | some first, some second =>
    if (connectionHosts rt first).any (connectionHosts rt second).contains &&
        (connectionPorts first).any (connectionPorts second).contains then
      match decodeURIComponent first.pathname, decodeURIComponent second.pathname with
      | some firstPath, some secondPath => .ok (firstPath = secondPath)
      | _, _ => .error .uriError
    else .ok false
  | _, _ => .error .typeError

/-- `if (condition) throw new DatabaseConfigValidationError(message)`. -/
def rejectIf (condition : Except ConfigError Bool) (message : String) : Except ConfigError Unit :=
  condition.bind fun b => if b then .error (.validation message) else .ok ()

def getTestDatabaseConfig (environment : ProcessEnv) : Except ConfigError DatabaseConfig :=
  match truthy environment.testDatabaseUrl with
  | none => .error (.validation "TEST_DATABASE_URL is required")
  | some testDatabaseUrl => do
    let testDatabase ← getDatabaseConfig rt { databaseUrl := some testDatabaseUrl }
    rejectIf (hasAmbiguousTargetOverrides rt testDatabaseUrl)
      "TEST_DATABASE_URL must not contain empty, repeated, or invalid host/port parameters"
    match truthy environment.databaseUrl with
    | none => return testDatabase
    | some applicationDatabaseUrl => do
      rejectIf (.ok !isPostgresUrl rt applicationDatabaseUrl) "DATABASE_URL must be PostgreSQL"
      rejectIf (hasAmbiguousTargetOverrides rt applicationDatabaseUrl)
        "DATABASE_URL must not contain empty, repeated, or invalid host/port parameters"
      rejectIf (sameDatabaseTarget rt testDatabaseUrl applicationDatabaseUrl)
        "TEST_DATABASE_URL must target a different database than DATABASE_URL"
      return testDatabase

end Code

/-! ### When the guard returns -/

variable {rt : Runtime}

theorem truthy_eq_some {value : Option Str} {s : Str} :
    truthy value = some s ↔ value = some s ∧ s ≠ [] := by
  simp [truthy, Option.filter_eq_some_iff]

/-- The URL passes the checks that look at one URL. -/
def Acceptable (rt : Runtime) (url : Str) : Prop :=
  isPostgresUrl rt url = true ∧ hasAmbiguousTargetOverrides rt url = .ok false

instance (url : Str) : Decidable (Acceptable rt url) := by unfold Acceptable; infer_instance

theorem ne_nil_of_acceptable {url : Str} (h : Acceptable rt url) : url ≠ [] := by
  rintro rfl
  have := h.1
  simp [isPostgresUrl, rt.newURL_nil] at this

theorem getDatabaseConfig_ok {environment : ProcessEnv} {config : DatabaseConfig} :
    getDatabaseConfig rt environment = .ok config ↔
      truthy environment.databaseUrl = some config.url ∧ isPostgresUrl rt config.url = true := by
  unfold getDatabaseConfig
  cases truthy environment.databaseUrl with
  | none => simp
  | some url =>
      by_cases h : isPostgresUrl rt url
      · simp only [h, if_true, Except.ok.injEq, Option.some.injEq]
        constructor
        · rintro rfl; exact ⟨rfl, h⟩
        · rintro ⟨rfl, -⟩; rfl
      · simp only [h, if_false, reduceCtorEq, Option.some.injEq, false_iff, not_and]
        rintro rfl; exact h

@[simp] theorem rejectIf_bind_ok {α : Type} {condition : Except ConfigError Bool}
    {message : String} {rest : Unit → Except ConfigError α} {a : α} :
    (rejectIf condition message >>= rest) = .ok a ↔ condition = .ok false ∧ rest () = .ok a := by
  cases condition with
  | error => simp [rejectIf, Bind.bind, Except.bind]
  | ok b => cases b <;> simp [rejectIf, Bind.bind, Except.bind]

theorem bind_ok {α β : Type} {x : Except ConfigError α} {f : α → Except ConfigError β} {b : β} :
    (x >>= f) = .ok b ↔ ∃ a, x = .ok a ∧ f a = .ok b := by
  cases x <;> simp [Bind.bind, Except.bind]

/-- **When the guard returns**: the test URL is set and acceptable, and the application's URL, when
there is one, is acceptable and does not share its target. -/
theorem getTestDatabaseConfig_ok {environment : ProcessEnv} {config : DatabaseConfig} :
    getTestDatabaseConfig rt environment = .ok config ↔
      environment.testDatabaseUrl = some config.url ∧ Acceptable rt config.url ∧
      ∀ applicationUrl, truthy environment.databaseUrl = some applicationUrl →
        Acceptable rt applicationUrl ∧
          sameDatabaseTarget rt config.url applicationUrl = .ok false := by
  unfold getTestDatabaseConfig
  cases ht : truthy environment.testDatabaseUrl with
  | none =>
      simp only [reduceCtorEq, false_iff, not_and]
      intro h hacc
      exact absurd (truthy_eq_some.mpr ⟨h, ne_nil_of_acceptable hacc⟩) (by simp [ht])
  | some testUrl =>
      obtain ⟨henv, hne⟩ := truthy_eq_some.mp ht
      have htest : truthy (some testUrl) = some testUrl := truthy_eq_some.mpr ⟨rfl, hne⟩
      rw [bind_ok, henv]
      simp only [getDatabaseConfig_ok, rejectIf_bind_ok, htest, Option.some.injEq]
      cases truthy environment.databaseUrl with
      | none =>
          simp only [pure, Except.pure, Except.ok.injEq, reduceCtorEq]
          constructor
          · rintro ⟨c, ⟨rfl, hpg⟩, hamb, rfl⟩
            exact ⟨rfl, ⟨hpg, hamb⟩, fun _ h => h.elim⟩
          · rintro ⟨rfl, ⟨hpg, hamb⟩, -⟩
            exact ⟨config, ⟨rfl, hpg⟩, hamb, rfl⟩
      | some applicationUrl =>
          simp only [rejectIf_bind_ok, pure, Except.pure, Except.ok.injEq, Bool.not_eq_false',
            Option.some.injEq, forall_eq']
          constructor
          · rintro ⟨c, ⟨rfl, hpg⟩, hamb, hpg', hamb', hsame, rfl⟩
            exact ⟨rfl, ⟨hpg, hamb⟩, ⟨hpg', hamb'⟩, hsame⟩
          · rintro ⟨rfl, ⟨hpg, hamb⟩, ⟨hpg', hamb'⟩, hsame⟩
            exact ⟨config, ⟨rfl, hpg⟩, hamb, hpg', hamb', hsame, rfl⟩

end MediumClone.Config
