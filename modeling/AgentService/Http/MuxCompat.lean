import AgentService.Lib.Percent
import AgentService.Lib.RootedPath

/-!
# The path rules in front of Express (`src/http/muxCompat.ts`)

A request target is refused (400), sent elsewhere (301 to the cleaned path) or passed on
with its decoded path bytes and a rewritten URL. `muxCompat` follows the source's order of
checks; the two views it hands on, the URL the router matches and the bytes the handlers
read, are compared in the last section.
-/

namespace AgentService
open Lib

/-- A status, headers in the order they are set, and a body: what a request is answered with. -/
structure Answer where
  status : Nat
  headers : List (String × JsString)
  body : Bytes
  deriving DecidableEq

/-- `unescapeBytes`: percent-decode to bytes; `none` for a `%` not followed by two hex digits. -/
def unescapeBytes (raw : JsString) : Option Bytes := percentDecode (latin1Encode raw)

/-- The loop of `cleanPath`: `out` after one more segment. -/
def cleanSegment (out : List JsString) (seg : JsString) : List JsString :=
  if seg = [] ∨ seg = js "." then out
  else if seg = js ".." then out.dropLast
  else out ++ [seg]

/-- `cleanPath`: path.Clean on a rooted path, trailing slash kept. -/
def cleanPath (p : JsString) : JsString :=
  if p = [] then js "/"
  else
    let rooted := if p.head? = some 0x2f then p else 0x2f :: p
    let out := (rooted.splitOn 0x2f).foldl cleanSegment []
    let clean := 0x2f :: [0x2f].intercalate out
    if rooted.getLast? = some 0x2f ∧ clean ≠ js "/" then clean ++ [0x2f] else clean

def isUnreserved (c : UInt8) : Bool :=
  (0x30 ≤ c && c ≤ 0x39) || (0x41 ≤ c && c ≤ 0x5a) || (0x61 ≤ c && c ≤ 0x7a) ||
    c == 0x2d || c == 0x5f || c == 0x2e || c == 0x7e

/-- `escapeWith`; the characters to keep are given as a string, as in the source. -/
def escapeWith (bytes : Bytes) (keep : String) : JsString :=
  latin1Decode (percentEncode (fun c => isUnreserved c || (js keep).contains c.toUInt16) bytes)

/-- `escapeForLocation`: the path of a redirect's `Location`. -/
def escapeForLocation (bytes : Bytes) : JsString := escapeWith bytes "$&+,/:;=@"

/-- `escapeForRouting`: what Express routes on. -/
def escapeForRouting (bytes : Bytes) : JsString := escapeWith bytes "/!$&'()*+,;=:@"

/-- `pathEscape`: what a path segment is sent as, whatever its bytes. -/
def pathEscape (bytes : Bytes) : JsString := escapeWith bytes "$&+=:@"

/-- A request `muxCompat` has passed on: the entry it made in `decodedPaths`, and the
URL it left. -/
structure RoutedRequest where
  decodedPath : Bytes
  url : JsString
  deriving DecidableEq

/-- The loop of `segmentFromEnd`: `path` is what stands before `end`, `k` how many segments are
still to be skipped. -/
def segmentBefore (path : Bytes) : Nat → Bytes
  | 0 =>
    if path = [] then []
    else
      match lastIndexOf 0x2f path with
      | some i => path.drop (i + 1)
      | none => path
  | k + 1 =>
    if path = [] then []
    else
      match lastIndexOf 0x2f path with
      | some i => segmentBefore (path.take i) k
      | none => []

/-- `segmentFromEnd`: a segment of the decoded path counted from the end (0 is the last). -/
def segmentFromEnd (req : RoutedRequest) (fromEnd : Nat) : Bytes :=
  segmentBefore req.decodedPath fromEnd

/-- `lastSegmentOf` -/
def lastSegmentOf (req : RoutedRequest) : Bytes := segmentFromEnd req 0

/-- `rawQueryOf` (`src/http/query.ts`): everything after the first `?`, or nothing. -/
def rawQueryOf (url : JsString) : JsString := (fromFirst 0x3f url).drop 1

def isSchemeStart (c : UInt16) : Bool := (0x41 ≤ c && c ≤ 0x5a) || (0x61 ≤ c && c ≤ 0x7a)

/-- `[A-Za-z0-9+.-]` -/
def isSchemeUnit (c : UInt16) : Bool :=
  isSchemeStart c || (0x30 ≤ c && c ≤ 0x39) || c == 0x2b || c == 0x2e || c == 0x2d

/-- `/^[A-Za-z][A-Za-z0-9+.-]*:\/\/([^/?]*)([\s\S]*)$/`: the groups of an absolute-form target. -/
def absoluteForm (url : JsString) : Option (JsString × JsString) :=
  match url with
  | [] => none
  | c :: rest =>
    if isSchemeStart c then
      match rest.dropWhile isSchemeUnit with
      | 0x3a :: 0x2f :: 0x2f :: tail =>
        some (tail.takeWhile fun c => c != 0x2f && c != 0x3f, tail.dropWhile fun c =>
          c != 0x2f && c != 0x3f)
      | _ => none
    else none

def badRequest : Answer :=
  ⟨400, [("Content-Type", js "text/plain; charset=utf-8"), ("Connection", js "close")],
    latin1Encode (js "400 Bad Request")⟩

/-- The 301 to a cleaned path. -/
def movedTo (location : JsString) : Answer := ⟨301, [("Location", location)], []⟩

inductive MuxOutcome where
  | answered (res : Answer)
  | next (req : RoutedRequest)
  deriving DecidableEq

/-- The request target without scheme and authority; `none` where the source answers 400. -/
def targetOf (url : JsString) : Option JsString :=
  match absoluteForm url with
  | some (authority, rest) => if authority.contains 0x23 then none else some rest
  | none => if url.head? = some 0x2f then some url else none

/-- `muxCompat` -/
def muxCompat (url : JsString) : MuxOutcome :=
  match targetOf url with
  | none => .answered badRequest
  | some target =>
    let rawPath := before 0x3f target
    let query := fromFirst 0x3f target
    match unescapeBytes rawPath with
    | none => .answered badRequest
    | some decoded =>
      let decodedStr := latin1Decode decoded
      let cleaned := cleanPath decodedStr
      if cleaned ≠ decodedStr then
        .answered (movedTo (escapeForLocation (latin1Encode cleaned) ++ query))
      else .next ⟨decoded, escapeForRouting (stringToUtf8 (utf8ToString decoded)) ++ query⟩

end AgentService
