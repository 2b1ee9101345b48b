import AgentService.IntrospectionUrl
import AgentService.Db.Setup

/-!
# From the environment to the port (`loadConfig` of `src/config.ts`, `main` of `src/server.ts`)

The configuration is read, the database set up, the app built, and only then is the port bound. What
each of these meets is given. A start that is refused prints one line and exits with 1.
-/

namespace AgentService
open Lib

namespace Config

/-- `getEnv`: unset and empty both mean the fallback. -/
def getEnv (env : Env) (key fallback : JsString) : JsString :=
  match env key with
  | none | some [] => fallback
  | some value => value

structure MySqlConfig where
  host : JsString
  port : JsString
  user : JsString
  password : JsString
  database : JsString
  deriving DecidableEq

end Config

structure Config where
  port : Nat
  gatewayProxyUrl : JsString
  corsAllowedOrigin : JsString
  introspection : Config.IntrospectionConfig
  mysql : Config.MySqlConfig
  deriving DecidableEq

namespace Config

def DEFAULT_PORT : JsString := js "80"

def DEFAULT_GATEWAY_URL : JsString := js "http://localhost:3002"

def DEFAULT_CORS_ORIGIN : JsString := js "http://localhost:3000"

/-- `parsePort`; an error is the sentence of a `ConfigError`. -/
def parsePort (raw : JsString) : Except JsString Nat :=
  if (raw = [] ∨ raw.all isDigitUnit = false) ∨ 65535 < groupNumber raw then
    .error (js "PORT must be a TCP port number, got \"" ++ raw ++ js "\"")
  else .ok (groupNumber raw)

/-- `replace(/\/+$/, "")` -/
def trimSlashes (url : JsString) : JsString := url.rdropWhile (· == 0x2f)

def loadConfig (node : UrlNode) (env : Env) : Except JsString Config := do
  let introspection ← loadAuthConfig node env
  let port ← parsePort (getEnv env (js "PORT") DEFAULT_PORT)
  return {
    port := port
    gatewayProxyUrl :=
      trimSlashes (getEnv env (js "ST_GATEWAY_URL") DEFAULT_GATEWAY_URL) ++ js "/proxy"
    corsAllowedOrigin := getEnv env (js "CORS_ALLOWED_ORIGIN") DEFAULT_CORS_ORIGIN
    introspection := introspection
    mysql := {
      host := getEnv env (js "MYSQL_HOST") (js "mysql")
      port := getEnv env (js "MYSQL_PORT") (js "3306")
      user := getEnv env (js "MYSQL_USER") (js "root")
      password := getEnv env (js "MYSQL_PASSWORD") (js "example")
      database := getEnv env (js "MYSQL_DATABASE") (js "vnm-agent-db") } }

end Config

/-- What a start comes to. -/
structure Process where
  boot : Boot
  /-- The error stream. -/
  errors : List JsString
  bound : Option Nat
  exited : Option Nat

/-- `console.error` and `process.exit(1)` -/
def refused (boot : Boot) (err : JsString) : Process := ⟨boot, [err], none, some 1⟩

namespace Config

/-- A secret that is accepted. -/
def IsSecret (secret : JsString) : Prop :=
  goTrimSpace secret ≠ [] ∧ secret = goTrimSpace secret ∧ holdsControl secret = false

/-- The environment with another secret. -/
def Env.withSecret (env : Env) (secret : JsString) : Env :=
  Function.update env ENV_SECRET (some secret)

/-- One accepted secret is as good as another. -/
theorem loadAuthConfig_secret (node : UrlNode) (env : Env) {secret secret' : JsString}
    (h : IsSecret secret) (h' : IsSecret secret') :
    loadAuthConfig node (env.withSecret secret') =
      (loadAuthConfig node (env.withSecret secret)).map fun accepted =>
        { accepted with secret := secret' } := by
  have hne : ENV_URL ≠ ENV_SECRET := by decide
  have hurl (s : JsString) : env.withSecret s ENV_URL = env ENV_URL := Function.update_of_ne hne ..
  have hsecret (s : JsString) : env.withSecret s ENV_SECRET = some s := Function.update_self ..
  have hclean {s : JsString} (h : IsSecret s) : ¬ (s ≠ goTrimSpace s ∨ holdsControl s = true) := by
    simp [h.2.1.symm, h.2.2]
  unfold loadAuthConfig
  simp only [hurl, hsecret, Option.getD_some, if_neg h.1, if_neg h'.1, if_neg (hclean h),
    if_neg (hclean h')]
  split
  · rfl
  · cases (urlProblem node ((env ENV_URL).getD [])).or (fetchProblem node ((env ENV_URL).getD []))
      <;> rfl

/-- Any other is refused with one of three sentences. -/
theorem loadAuthConfig_noSecret (node : UrlNode) (env : Env) {secret : JsString}
    (h : ¬ IsSecret secret) :
    ∃ message ∈ [ENV_URL ++ js " is required — refusing to start without it",
        ENV_SECRET ++ js " is required — refusing to start without it",
        ENV_SECRET ++ js " must not contain surrounding whitespace or control characters"],
      loadAuthConfig node (env.withSecret secret) = .error message := by
  have hsecret : env.withSecret secret ENV_SECRET = some secret := Function.update_self ..
  unfold loadAuthConfig
  simp only [hsecret, Option.getD_some]
  split
  · exact ⟨_, by simp, rfl⟩
  split
  · exact ⟨_, by simp, rfl⟩
  · rename_i _ hblank
    have hunclean : secret ≠ goTrimSpace secret ∨ holdsControl secret = true := by
      by_contra hclean
      rw [not_or, not_not, Bool.not_eq_true] at hclean
      exact h ⟨hblank, hclean⟩
    rw [if_pos hunclean]
    exact ⟨_, by simp, rfl⟩

theorem getEnv_secret (env : Env) {key : JsString} (h : key ≠ ENV_SECRET)
    (secret fallback : JsString) :
    getEnv (env.withSecret secret) key fallback = getEnv env key fallback := by
  have hkey : env.withSecret secret key = env key := Function.update_of_ne h ..
  rw [getEnv, hkey, getEnv]

/-- The configuration is what the environment says but for the secret: no refusal tells it. -/
theorem config_hides_secret (node : UrlNode) (env : Env) (secret secret' : JsString) :
    (IsSecret secret → IsSecret secret' →
      loadConfig node (env.withSecret secret') = (loadConfig node (env.withSecret secret)).map
        fun config =>
        { config with introspection := { config.introspection with secret := secret' } }) ∧
    (¬ IsSecret secret → ∃ message ∈ [ENV_URL ++ js " is required — refusing to start without it",
        ENV_SECRET ++ js " is required — refusing to start without it",
        ENV_SECRET ++ js " must not contain surrounding whitespace or control characters"],
      loadConfig node (env.withSecret secret) = .error message) := by
  constructor
  · intro h h'
    unfold loadConfig
    rw [loadAuthConfig_secret node env h h']
    cases loadAuthConfig node (env.withSecret secret) with
    | error message => rfl
    | ok accepted =>
      simp (disch := decide) only [getEnv_secret]
      cases parsePort (getEnv env (js "PORT") DEFAULT_PORT) <;> rfl
  · intro h
    obtain ⟨message, hmem, hrun⟩ := loadAuthConfig_noSecret node env h
    refine ⟨message, hmem, ?_⟩
    rw [loadConfig, hrun]
    rfl

theorem config_hides_secret_center :
    loadConfig centerNode (centerEnv.withSecret (js "other")) =
      (loadConfig centerNode (centerEnv.withSecret (js "s3cret"))).map fun config =>
        { config with introspection := { config.introspection with secret := js "other" } } :=
  (config_hides_secret centerNode centerEnv (js "s3cret") (js "other")).1 ⟨by decide +kernel,
    by decide +kernel, by decide +kernel⟩ ⟨by decide +kernel, by decide +kernel, by decide +kernel⟩

end Config

/-! ## The start -/

end AgentService
