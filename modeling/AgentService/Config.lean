import AgentService.Gateway.Errors
import AgentService.Gateway.SameHost

/-!
# The introspection URL and its secret (`src/config.ts`)

The URL is read twice: by an index, by Go's rules (`urlProblem`), and by a pattern, against what the
URL class makes of it (`fetchProblem`). The URL class and `isIPv6` are Node's: any functions of
their types.
-/

namespace AgentService.Config
open Lib

/-- `new URL(text).href`, `none` where it throws, and `isIPv6`. -/
structure UrlNode extends Unicode where
  href : JsString → Option JsString
  isIPv6 : JsString → Bool

/-- `Record<string, string | undefined>` -/
abbrev Env := JsString → Option JsString

structure IntrospectionConfig where
  url : JsString
  secret : JsString
  deriving DecidableEq

def ENV_URL : JsString := js "AUTH_INTROSPECTION_URL"

def ENV_SECRET : JsString := js "AUTH_INTROSPECTION_SECRET"

def isControl (code : UInt16) : Bool := code < 0x20 || code == 0x7f

/-- Some code point is a control character; none of two units is. -/
def holdsControl (s : JsString) : Bool :=
  (codePoints s).any fun
    | [u] => isControl u
    | _ => false

/-! ## Escapes and hosts -/

/-- What an ASCII character of a host or a zone may be without an escape. -/
def hostSafe (c : UInt16) : Bool :=
  isLetter c || isDigitUnit c || (js "_.~!$&'()*+,;=:[]<>\"-").contains c

inductive EscapeMode where
  | host
  | zone
  | path
  deriving DecidableEq, Repr

/-- The loop of `validEscapes`, over the characters that are left. -/
def validEscapesFrom (mode : EscapeMode) : List JsString → Bool
  | [] => true
  | c :: chars =>
    if c = [0x25] then
      match chars with
      | [h] :: [l] :: chars =>
        match escapedUnit h l with
        | some byte =>
          -- in a host an escape may only stand for a non-ASCII byte, or be `%25`
          !(mode == .host && byte < 0x80 && !(h == 0x32 && l == 0x35)) &&
            validEscapesFrom mode chars
        | none => false
      | _ => false
    else
      match c with
      | [u] => !(mode != .path && u < 0x80 && !hostSafe u) && validEscapesFrom mode chars
      | _ => validEscapesFrom mode chars

def validEscapes (s : JsString) (mode : EscapeMode) : Bool := validEscapesFrom mode (codePoints s)

def validOptionalPort (p : JsString) : Bool := p == [] || isPort p

/-- `s.indexOf(needle)` -/
def indexOfText (needle : JsString) : JsString → Option Nat
  | [] => if needle = [] then some 0 else none
  | c :: s => if needle.isPrefixOf (c :: s) = true then some 0
      else (indexOfText needle s).map (· + 1)

/-- What is inside the brackets: an address and, behind `%25`, a zone. -/
def addressAndZone (inside : JsString) : JsString × Option JsString :=
  match indexOfText (js "%25") inside with
  | some zoneAt => (inside.take zoneAt, some (inside.drop (zoneAt + 3)))
  | none => (inside, none)

def validHost (isIPv6 : JsString → Bool) (host : JsString) : Bool :=
  if (host.drop 1).contains 0x5b then false
  else if host.head? = some 0x5b then
    match lastIndexOf 0x5d host with
    | none => false
    | some close =>
      let (address, zone) := addressAndZone ((host.take close).drop 1)
      validOptionalPort (host.drop (close + 1)) && validEscapes address .host && isIPv6 address &&
        (zone.all fun zone => zone != [] && validEscapes zone .zone) &&
          validEscapes (host.drop close) .host
  else
    match lastIndexOf 0x3a host with
    | some colon => validOptionalPort (host.drop colon) && validEscapes host .host
    | none => validEscapes host .host

/-! ## The two readings -/

/-- The loop of `getScheme`: what it has walked over when it meets the colon, and what follows. -/
def getScheme (seen : JsString) : JsString → Option (JsString × JsString)
  | [] => none
  | c :: rest =>
    if isLetter c then getScheme (seen ++ [c]) rest
    else if isSchemeTailUnit c = true ∧ seen ≠ [] then getScheme (seen ++ [c]) rest
    else if c = 0x3a ∧ seen ≠ [] then some (seen, rest)
    else none

/-- The variables of `urlProblem`. -/
structure UrlParts where
  scheme : JsString
  rest : JsString
  fragment : JsString
  authority : JsString
  path : JsString

def urlParts (raw : JsString) : UrlParts :=
  let (scheme, rest) := (getScheme [] raw).getD ([], raw)
  { scheme := asciiLower scheme
    rest := before 0x23 rest
    fragment := (fromFirst 0x23 rest).drop 1
    authority := before 0x2f ((before 0x23 rest).drop 2)
    path := fromFirst 0x2f ((before 0x23 rest).drop 2) }

/-- Why Go refuses the URL, or `none`. -/
def urlProblem (node : UrlNode) (raw : JsString) : Option JsString :=
  let absolute := ENV_URL ++ js " must be an absolute URL, for example " ++
    js "http://localhost:3005/auth/v1/introspect"
  if holdsControl raw = true then some (ENV_URL ++ js " must not contain control characters")
  else
    let url := urlParts raw
    if url.scheme = [] then some absolute
    else if ¬ (js "//").isPrefixOf url.rest then some absolute
    else if url.scheme ≠ js "http" ∧ url.scheme ≠ js "https" then
      some (ENV_URL ++ js " must use http or https, not \"" ++ url.scheme ++ js "\"")
    else if url.rest.contains 0x3f = true ∨ url.fragment ≠ [] then
      some (ENV_URL ++ js " must be a plain endpoint URL " ++ js "with no query string or fragment")
    else if url.authority.contains 0x40 = true then
      some (ENV_URL ++ js " must not carry credentials; the secret travels in " ++ ENV_SECRET)
    else if url.authority = [] ∨ validHost node.isIPv6 url.authority = false ∨
      validEscapes url.path .path = false then
      some absolute
    else none

/-- `/^([A-Za-z][A-Za-z0-9+.-]*):\/\/([^/?#]*)([\s\S]*)$/` and its three groups. -/
def matchUrl (raw : JsString) : Option (JsString × JsString × JsString) :=
  if (raw.head?.any isLetter) = true then
    match raw.dropWhile isSchemeTailUnit with
    | 0x3a :: 0x2f :: 0x2f :: s =>
      some (raw.takeWhile isSchemeTailUnit, s.takeWhile fun u => !(js "/?#").contains u,
        s.dropWhile fun u => !(js "/?#").contains u)
    | _ => none
  else none

/-- Why `fetch` would not send the URL as it is written, or `none`. -/
def fetchProblem (node : UrlNode) (raw : JsString) : Option JsString :=
  let href := (node.href raw).getD []
  let rewritten := ENV_URL ++ js " would be rewritten (or refused) by fetch; " ++
    js "write it in its normalised form, " ++ js "with no trailing space, default port, " ++
    js "dot segment or escape that WHATWG URL would change"
  match matchUrl raw with
  | some (scheme, authority, rest) =>
    let path := if rest = [] ∨ rest.head? = some 0x23 then js "/" ++ rest else rest
    if href ≠ [] ∧
        href = asciiLower scheme ++ js "://" ++ node.toLowerCase authority ++ path then none
    else some rewritten
  | none => some rewritten

/-- `loadAuthConfig`; an error is the sentence of a `ConfigError`. -/
def loadAuthConfig (node : UrlNode) (env : Env) : Except JsString IntrospectionConfig :=
  let rawUrl := (env ENV_URL).getD []
  let secret := (env ENV_SECRET).getD []
  if goTrimSpace rawUrl = [] then
    .error (ENV_URL ++ js " is required — refusing to start without it")
  else if goTrimSpace secret = [] then
    .error (ENV_SECRET ++ js " is required — refusing to start without it")
  else if secret ≠ goTrimSpace secret ∨ holdsControl secret = true then
    .error (ENV_SECRET ++ js " must not contain surrounding whitespace or control characters")
  else
    match (urlProblem node rawUrl).or (fetchProblem node rawUrl) with
    | some problem => .error problem
    | none => .ok ⟨rawUrl, secret⟩

end AgentService.Config
