import AgentService.Lib.Percent

/-!
# Reading a redirect's `Location` (`src/gateway/location.ts`)

A reference is split by Go's rules (`parseReference`), resolved against the target it came
from (`intended`), written out as `scheme://host/path?query` and checked against what the
URL class makes of that text (`assemble`). The URL class and `domainToASCII` are Node's:
a `Web` is any pair of functions of their types, so nothing below depends on how a URL is
really parsed.
-/

namespace AgentService
open Lib

/-- What the service reads off a `URL` object. -/
structure Url where
  protocol : JsString
  host : JsString
  hostname : JsString
  username : JsString
  password : JsString
  pathname : JsString
  search : JsString
  hash : JsString
  deriving DecidableEq, Repr

/-- Node's side of the matter: `new URL(text)`, `none` where it throws, and `domainToASCII`. -/
structure Web where
  parseUrl : JsString → Option Url
  domainToASCII : JsString → JsString

/-- A request target: what fetch is given, and Go's `URL.Host`. -/
structure Target where
  url : Url
  host : JsString
  deriving DecidableEq, Repr

def isLetter (c : UInt16) : Bool := (0x41 ≤ c && c ≤ 0x5a) || (0x61 ≤ c && c ≤ 0x7a)

def isDigitUnit (c : UInt16) : Bool := 0x30 ≤ c && c ≤ 0x39

def isHexUnit (c : UInt16) : Bool :=
  isDigitUnit c || (0x41 ≤ c && c ≤ 0x46) || (0x61 ≤ c && c ≤ 0x66)

/-- `toLowerCase` of a string of ASCII. -/
def asciiLower (s : JsString) : JsString :=
  s.map fun c => if 0x41 ≤ c ∧ c ≤ 0x5a then c + 0x20 else c

/-- `CTL` -/
def hasControl (s : JsString) : Bool := s.any fun c => c ≤ 0x1f || c == 0x7f

/-- `BAD_ESCAPE`: a `%` that does not stand before two hex digits. -/
def hasBadEscape : JsString → Bool
  | [] => false
  | c :: s =>
    (c == 0x25 && !(match s with
      | h :: l :: _ => isHexUnit h && isHexUnit l
      | _ => false)) || hasBadEscape s

/-- `HOST_OK`, one character of it. -/
def isHostUnit (c : UInt16) : Bool :=
  isLetter c || isDigitUnit c || (js "-._~!$&'()*+,;=:[]<>\"%").contains c || 0x80 ≤ c

/-- `fromHeaderValue`: each byte above 0x7f becomes `%XX`. -/
def fromHeaderValue (value : JsString) : JsString :=
  (latin1Encode value).flatMap fun b => if b < 0x80 then [b.toUInt16]
    else latin1Decode (percentByte b)

/-- The loop of `schemeOf`; `seen` is what it has walked over. -/
def schemeLoop (seen : JsString) : JsString → Option JsString
  | [] => some []
  | c :: rest =>
    if isLetter c then schemeLoop (seen ++ [c]) rest
    else if isDigitUnit c || c == 0x2b || c == 0x2d || c == 0x2e then
      if seen = [] then some [] else schemeLoop (seen ++ [c]) rest
    else if c = 0x3a then if seen = [] then none else some seen
    else some []

/-- `schemeOf`: the `scheme:` of a reference, empty when it has none, `none` when it
is malformed. -/
def schemeOf (ref : JsString) : Option JsString := schemeLoop [] ref

/-- A percent sign in a host is only allowed as `%25` or as part of an encoded non-ASCII byte. -/
def hostEscapesOk : JsString → Bool
  | [] => true
  | c :: s =>
    if c = 0x25 then
      match s with
      | h :: l :: s =>
        isHexUnit h && isHexUnit l && !((isDigitUnit h && h < 0x38) && !(h == 0x32 && l == 0x35)) &&
          hostEscapesOk s
      | _ => false
    else hostEscapesOk s

/-- `/^\d*$/` -/
def allDigits (s : JsString) : Bool := s.all isDigitUnit

/-- `/^:\d*$/` -/
def isPort (s : JsString) : Bool :=
  match s with
  | c :: s => c == 0x3a && allDigits s
  | [] => false

/-- `hostAcceptable` -/
def hostAcceptable (host : JsString) : Bool :=
  host.all isHostUnit && hostEscapesOk host &&
    if host.head? = some 0x5b then
      -- the "[" itself stands at 0, so a "]" that is found stands after it
      host.contains 0x5d &&
        ((fromFirst 0x5d host).drop 1 == [] || isPort ((fromFirst 0x5d host).drop 1))
    else
      match lastIndexOf 0x3a host with
      | none => true
      | some colon => allDigits (host.drop (colon + 1))

/-- The character that `%hl` stands for, where `h` and `l` are hex digits. -/
def escapedUnit (h l : UInt16) : Option UInt16 :=
  if isHexUnit h && isHexUnit l then (hexPair h.toUInt8 l.toUInt8).map UInt8.toUInt16 else none

/-- `%XX` replaced by the character with that code, everything else left alone. -/
def replaceEscapes : JsString → JsString
  | c :: h :: l :: s =>
    match if c = 0x25 then escapedUnit h l else none with
    | some u => u :: replaceEscapes s
    | none => c :: replaceEscapes (h :: l :: s)
  | s => s

/-- `decodeHost`: `%XX` bytes, read as UTF-8. -/
def decodeHost (host : JsString) : JsString :=
  if host.contains 0x25 then utf8ToString (latin1Encode (replaceEscapes host)) else host

/-- `hostnameOf`: a `URL.Host` without the port and the brackets of an IPv6 literal. -/
def hostnameOf (host : JsString) : JsString :=
  if host.head? = some 0x5b then
    -- `slice(1, -1)` where there is no "]"
    if host.contains 0x5d then (before 0x5d host).drop 1 else (host.drop 1).dropLast
  else
    match lastIndexOf 0x3a host with
    | none => host
    | some colon => host.take colon

/-- `asciiHostname` -/
def asciiHostname (web : Web) (name : JsString) : JsString :=
  if name.all fun c => c ≤ 0x7f then name
  else if web.domainToASCII name = [] then name else web.domainToASCII name

/-- `isDomainOrSubdomain`: byte for byte; a name with a colon or a percent sign is
never a subdomain. -/
def isDomainOrSubdomain (sub parent : JsString) : Bool :=
  if sub = parent then true
  else if sub.any fun c => c == 0x3a || c == 0x25 then false
  else
    parent.isSuffixOf sub &&
      (parent.length < sub.length && sub[sub.length - parent.length - 1]? == some 0x2e)

/-- The loop of `resolvePath` after one more element; the state is `dst` and `first`. -/
def resolveElement (st : JsString × Bool) (elem : JsString) : JsString × Bool :=
  if elem = js "." then (st.1, false)
  else if elem = js ".." then
    match lastIndexOf 0x2f (st.1.drop 1) with
    | none => (js "/", true)
    | some index => (0x2f :: (st.1.drop 1).take index, st.2)
  else ((if st.2 then st.1 else st.1 ++ [0x2f]) ++ elem, false)

/-- `resolvePath`: `ref` against `base`, with "." and ".." removed from the escaped text. -/
def resolvePath (base ref : JsString) : JsString :=
  let full :=
    if ref = [] then base
    else if ref.head? = some 0x2f then ref
    else
      (match lastIndexOf 0x2f base with
        | some i => base.take (i + 1)
        | none => []) ++ ref
  if full = [] then []
  else
    let elems := full.splitOn 0x2f
    let dst := (elems.foldl resolveElement (js "/", true)).1
    let elem := elems.getLast?.getD []
    let dst := if elem = js "." ∨ elem = js ".." then dst ++ [0x2f] else dst
    if 1 < dst.length ∧ dst[1]? = some 0x2f then dst.drop 1 else dst

/-- A reference taken apart: scheme and host as Go reads them, empty where there is none. -/
structure Reference where
  scheme : JsString
  host : JsString
  path : JsString
  query : JsString
  deriving DecidableEq, Repr

/-- The part of a reference in front of `?` and `#`. -/
def pathPart (ref : JsString) : JsString := before 0x3f (before 0x23 ref)

/-- The part from `?` to `#`, the `?` included. -/
def queryPart (ref : JsString) : JsString := fromFirst 0x3f (before 0x23 ref)

/-- Whether what follows the scheme opens an authority: `//`, but for a reference without a scheme
not `///`. -/
def opensAuthority (scheme rest : JsString) : Bool :=
  (js "//").isPrefixOf rest && (scheme != [] || !(js "///").isPrefixOf rest)

/-- `resolveReference` up to the path: the reference taken apart, or `none` where it is refused. -/
def parseReference (ref : JsString) : Option Reference :=
  if hasControl ref then none
  else if hasBadEscape ((fromFirst 0x23 ref).drop 1) then none
  else
    match schemeOf (pathPart ref) with
    | none => none
    | some s =>
      let scheme := asciiLower s
      if scheme ≠ [] ∧ scheme ≠ js "http" ∧ scheme ≠ js "https" then none
      else
        let rest := (pathPart ref).drop (if scheme = [] then 0 else scheme.length + 1)
        if scheme = [] ∧ rest.head? ≠ some 0x2f ∧ (before 0x2f rest).contains 0x3a then none
        else
          let authority := if opensAuthority scheme rest then before 0x2f (rest.drop 2) else []
          if opensAuthority scheme rest ∧ hostAcceptable authority = false then none
          else
            let host := if opensAuthority scheme rest then decodeHost authority else []
            let path := if opensAuthority scheme rest then fromFirst 0x2f (rest.drop 2) else rest
            -- "http:/evil" and "http:///x" have no host of their own
            if scheme ≠ [] ∧ host = [] then none
            else if hasBadEscape path then none
            else
              some ⟨scheme, host, path.flatMap fun c => if c = 0x5c then js "%5C" else [c],
                queryPart ref⟩

/-- `url.protocol.slice(0, -1)` -/
def Url.scheme (url : Url) : JsString := url.protocol.dropLast

/-- What Go means by a reference: final scheme, host, path and query. -/
def Reference.intended (r : Reference) (base : Option Target) : Option Reference :=
  if r.scheme ≠ [] ∨ r.host ≠ [] then
    some ⟨if r.scheme = [] then (base.map fun b => b.url.scheme).getD [] else r.scheme, r.host,
      resolvePath r.path [], r.query⟩
  else
    match base with
    | none => none
    | some b =>
      some ⟨b.url.scheme, b.host, resolvePath b.url.pathname r.path,
        if r.path = [] ∧ r.query = [] then b.url.search else r.query⟩

/-- `scheme://host/`: where a target is meant to go. -/
def originText (scheme host : JsString) : JsString := scheme ++ js "://" ++ host ++ js "/"

/-- The text that is given to the URL class. -/
def Reference.text (r : Reference) : JsString :=
  r.scheme ++ js "://" ++ r.host ++ (if r.path = [] then js "/" else r.path) ++ r.query

/-- What is meant is checked to be what fetch will do. -/
def assemble (web : Web) (r : Reference) : Option Target :=
  if r.scheme ≠ js "http" ∧ r.scheme ≠ js "https" then none
  else
    match web.parseUrl r.text with
    | none => none
    | some url =>
      match web.parseUrl (originText r.scheme r.host) with
      | none => none
      | some origin =>
        if url.protocol ≠ r.scheme ++ js ":" ∨ url.host ≠ origin.host ∨ url.username ≠ [] ∨
            url.password ≠ [] then none
        else some ⟨url, r.host⟩

/-- `resolveReference`: `ref` resolved against `base`, or `none` where it is refused. -/
def resolveReference (web : Web) (base : Option Target) (ref : JsString) : Option Target :=
  (parseReference ref).bind fun r => (r.intended base).bind fun i => assemble web i

/-- Characters that a URL's path keeps as they are. -/
def isPlainPathUnit (c : UInt16) : Bool :=
  isLetter c || isDigitUnit c || (js "-_.~$&+=:@%/").contains c

/-- `new URL` on plain texts: `http` or `https`, a host name of lower-case letters, hyphens and
dots, a path without dot segments and a query, both of characters that stay as they are. -/
def plainUrl (text : JsString) : Option Url :=
  let scheme := before 0x3a text
  let rest := (fromFirst 0x3a text).drop 3
  let host := before 0x2f rest
  let path := before 0x3f (fromFirst 0x2f rest)
  let query := fromFirst 0x3f (fromFirst 0x2f rest)
  let dots := [js ".", js "..", js "%2e", js "%2e%2e", js ".%2e", js "%2e."]
  if (scheme == js "http" || scheme == js "https") && (js "://").isPrefixOf (fromFirst 0x3a text) &&
      host != [] && host.all (fun c => (0x61 ≤ c && c ≤ 0x7a) || c == 0x2d || c == 0x2e) &&
      path.all isPlainPathUnit && (path.splitOn 0x2f).all (fun seg =>
        !dots.contains (asciiLower seg)) &&
      (query.drop 1).all isPlainPathUnit then
    some ⟨scheme ++ js ":", host, host, [], [], path, if query = js "?" then [] else query, []⟩
  else none

/-- Node's side, for plain texts. -/
def plainWeb : Web := ⟨plainUrl, id⟩

end AgentService
