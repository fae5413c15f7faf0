import NodeRpc.Endpoint.Host

/-!
# Endpoints

The endpoint of a node is a URL in normal form. `Url.parse` reads a text: blanks around it and line
breaks within it are dropped, the scheme and the host are folded, the scheme's own port is left
out, dot segments of the path are resolved, and characters that may not stand for themselves are
percent-encoded. `Url.text` writes the parts back.
-/

namespace NodeRpc

/-- Who and where: the part of a URL between `//` and the path. -/
structure Authority where
  user : String
  password : String
  host : Host
  /-- The port, unless it is the scheme's own. -/
  port : Option Nat
  deriving DecidableEq, Inhabited

/-- A URL in normal form. -/
structure Url where
  scheme : String
  authority : Option Authority
  path : String
  query : Option String
  fragment : Option String
  deriving DecidableEq, Inhabited

namespace Authority

/-- The host, with the port if it is not the scheme's own. -/
def hostAndPort (a : Authority) : String :=
  a.host.text ++ (match a.port with
    | some port => ":" ++ String.ofList (Decimal.ofNat port)
    | none => "")

/-- An authority as text. -/
def text (a : Authority) : String :=
  let password := if a.password.isEmpty then "" else ":" ++ a.password
  let user := if a.user.isEmpty && a.password.isEmpty then "" else a.user ++ password ++ "@"
  user ++ a.hostAndPort

end Authority

namespace Url

/-- The text of a part that may be missing, behind its mark. -/
def marked (mark : String) : Option String → String
  | some part => mark ++ part
  | none => ""

/-- The path and the query, as a request names them. -/
def target (u : Url) : String := u.path ++ marked "?" u.query

/-- A URL as text. A path without an authority may not start like one. -/
def text (u : Url) : String :=
  let authority :=
    match u.authority with
    | some a => "//" ++ a.text
    | none => if ['/', '/'].isPrefixOf u.path.toList then "/." else ""
  u.scheme ++ ":" ++ authority ++ u.target ++ marked "#" u.fragment

/-- The port of a scheme that names a network service. -/
def servicePort? : String → Option Nat
  | "http" | "ws" => some 80
  | "https" | "wss" => some 443
  | "ftp" => some 21
  | _ => none

/-- How the rest of a URL is read depends on its scheme. -/
inductive Kind where
  | service (port : Nat)
  | file
  | other
  deriving DecidableEq, Inhabited

/-- The kind of a scheme. -/
def Kind.ofScheme (scheme : String) : Kind :=
  match servicePort? scheme with
  | some port => .service port
  | none => if scheme = "file" then .file else .other

/-- Whether a character separates the segments of a path. -/
def Kind.isSlash (k : Kind) (c : Char) : Bool := c = '/' || (c = '\\' && k ≠ .other)

/-- Whether a character ends the authority. -/
def Kind.endsAuthority (k : Kind) (c : Char) : Bool := k.isSlash c || c = '?' || c = '#'

/-! ### Parts -/

/-- The text without blanks and control characters around it and without line breaks and tabs. -/
def cleaned (cs : List Char) : List Char :=
  let blank (c : Char) : Bool := c.toNat ≤ 32
  let trimmed := ((cs.dropWhile blank).reverse.dropWhile blank).reverse
  trimmed.filter fun c => c ≠ '\t' ∧ c ≠ '\n' ∧ c ≠ '\r'

/-- Whether a character may occur in a scheme after the first letter. -/
def isSchemeChar (c : Char) : Bool := c.isAlphanum || c = '+' || c = '-' || c = '.'

/-- The scheme in lower case, and what follows its colon. -/
def splitScheme? (cs : List Char) : Option (String × List Char) :=
  match cs.takeWhile isSchemeChar, cs.dropWhile isSchemeChar with
  | c :: scheme, ':' :: rest =>
    if c.isAlpha then some (String.ofList ((c :: scheme).map Char.toLower), rest) else none
  | _, _ => none

/-- The query and the fragment, from the text after the path. -/
def queryAndFragment (k : Kind) (cs : List Char) : Option String × Option String :=
  let encoded (escapes part : List Char) := some (String.ofList (Percent.encode escapes part))
  let escapes := if k = .other then Percent.inQuery else Percent.inServiceQuery
  match cs with
  | '?' :: cs =>
    let query := encoded escapes (cs.takeWhile (· ≠ '#'))
    match cs.dropWhile (· ≠ '#') with
    | _ :: fragment => (query, encoded Percent.inFragment fragment)
    | [] => (query, none)
  | _ :: fragment => (none, encoded Percent.inFragment fragment)
  | [] => (none, none)

/-- How many dots a segment stands for, each possibly percent-encoded, if it is all dots. -/
def dots : List Char → Option Nat
  | [] => some 0
  | '.' :: cs => (dots cs).map (· + 1)
  | '%' :: '2' :: c :: cs => if c = 'e' ∨ c = 'E' then (dots cs).map (· + 1) else none
  | _ :: _ => none

/-- Adds a segment to the ones before it: one dot stays, two dots go back. The last segment of a
path ends it, so dots there leave an empty one. -/
def resolve (segments : List (List Char)) : List (List Char) → List (List Char)
  | [] => segments
  | segment :: rest =>
    let segment := Percent.encode Percent.inPath segment
    let closing := if rest.isEmpty then [[]] else []
    match dots segment with
    | some 1 => resolve (segments ++ closing) rest
    | some 2 => resolve (segments.dropLast ++ closing) rest
    | _ => resolve (segments ++ [segment]) rest

/-- The path that starts at the root and has the given text behind the first slash. -/
def rooted (k : Kind) (cs : List Char) : List Char :=
  let segments := resolve [] (splitAt (if k = .other then ['/'] else ['/', '\\']) cs)
  let segments := if k = .file then
      match segments.dropWhile List.isEmpty with
      | [] => [[]]
      | segments => segments
    else segments
  '/' :: List.intercalate ['/'] segments

/-- The path, query and fragment after an authority, or the lack of one. -/
def finish (k : Kind) (scheme : String) (authority : Option Authority) (cs : List Char) : Url :=
  let ends (c : Char) : Bool := c = '?' || c = '#'
  let given := cs.takeWhile (!ends ·)
  let (query, fragment) := queryAndFragment k (cs.dropWhile (!ends ·))
  let path :=
    match given with
    | [] => if k = .other then [] else ['/']
    | c :: rest => rooted k (if k.isSlash c then rest else c :: rest)
  ⟨scheme, authority, String.ofList path, query, fragment⟩

/-- Splits an authority at its last `@`. -/
def splitUser (cs : List Char) : Option (List Char) × List Char :=
  if cs.contains '@' then
    (some ((cs.reverse.dropWhile (· ≠ '@')).drop 1).reverse, (cs.reverse.takeWhile (· ≠ '@')).reverse)
  else (none, cs)

/-- Splits the text after a user at the colon that is not within brackets. -/
def splitHost : Bool → List Char → List Char × List Char
  | _, [] => ([], [])
  | inside, c :: cs =>
    if c = ':' ∧ !inside then ([], c :: cs)
    else
      let inside := if c = '[' then true else if c = ']' then false else inside
      let (host, rest) := splitHost inside cs
      (c :: host, rest)

/-- Reads a port, and returns what follows it. -/
def port (own : Option Nat) (cs : List Char) : Except UrlError (Option Nat × List Char) :=
  let digits := cs.takeWhile Char.isDigit
  let rest := cs.dropWhile Char.isDigit
  let value := (numeral? 10 digits).getD 0
  let ends := match rest with
    | [] => true
    | c :: _ => c = '/' || c = '\\' || c = '?' || c = '#'
  if 65535 < value ∨ !ends then .error .invalidPort
  else .ok (if digits.isEmpty ∨ some value = own then none else some value, rest)

/-! ### Reading -/

/-- Reads what follows `scheme://`. -/
def ofAuthority (k : Kind) (scheme : String) (cs : List Char) : Except UrlError Url := do
  let (user, rest) := splitUser (cs.takeWhile (!k.endsAuthority ·))
  let tail := cs.dropWhile (!k.endsAuthority ·)
  if user = some [] ∧ rest = [] ∧ tail ≠ [] then throw .emptyHost
  let user := user.getD []
  let encoded (part : List Char) := String.ofList (Percent.encode Percent.inUser part)
  let name := encoded (user.takeWhile (· ≠ ':'))
  let password := encoded ((user.dropWhile (· ≠ ':')).drop 1)
  let (hostText, rest) := splitHost false rest
  let host ← match k with
    | .other => Host.ofOther hostText
    | _ => if hostText.isEmpty then throw .emptyHost else Host.ofService hostText
  if host.isEmpty ∧ rest ≠ [] then throw .emptyHost
  let own := servicePort? scheme
  let (port, rest) ← match rest with
    | ':' :: digits => Url.port own (digits ++ tail)
    | _ => pure (none, tail)
  if host.isEmpty ∧ !(name.isEmpty ∧ password.isEmpty) then throw .emptyHost
  return finish k scheme (some ⟨name, password, host, port⟩) rest

/-- Reads what follows `file:`. A file has no authority but a host, and none is the local one. -/
def ofFile (cs : List Char) : Except UrlError Url := do
  match cs with
  | a :: b :: rest =>
    if Kind.file.isSlash a ∧ Kind.file.isSlash b then
      let hostText := rest.takeWhile (!Kind.file.endsAuthority ·)
      let host ← if hostText.isEmpty then pure (.name "") else Host.ofService hostText
      let host := if host = .name "localhost" then .name "" else host
      return finish .file "file" (some ⟨"", "", host, none⟩)
        (rest.dropWhile (!Kind.file.endsAuthority ·))
  | _ => pure ()
  return finish .file "file" (some ⟨"", "", .name "", none⟩) cs

/-- Reads what follows the colon of a scheme without an authority: a path from the root, or a text
that is taken as it is. -/
def ofPath (scheme : String) (cs : List Char) : Url :=
  match cs with
  | '/' :: _ => finish .other scheme none cs
  | _ =>
    let ends (c : Char) : Bool := c = '?' || c = '#'
    let (query, fragment) := queryAndFragment .other (cs.dropWhile (!ends ·))
    let path := Percent.encode [] (cs.takeWhile (!ends ·))
    ⟨scheme, none, String.ofList path, query, fragment⟩

/-- Reads a URL. -/
def parse (text : String) : Except UrlError Url :=
  match splitScheme? (cleaned text.toList) with
  | none => .error .noScheme
  | some (scheme, rest) =>
    match Kind.ofScheme scheme with
    | .file => ofFile rest
    | .service port =>
      ofAuthority (.service port) scheme (rest.dropWhile (Kind.isSlash (.service port)))
    | .other =>
      match rest with
      | '/' :: '/' :: rest => ofAuthority .other scheme rest
      | rest => .ok (ofPath scheme rest)

end Url

end NodeRpc
