import Onecli.Gateway.Matchers

/-!
# Injection rules

The crate `inject`: what an injection does to the headers and the path of a request, which rules apply to it, and the
names of the headers that the rules set. The crates `http`, `regex` and `form_urlencoded` are parameters. A `none` is a
panic.
-/

namespace Onecli.Inject

open CodeUnits
open Gateway (Str pathMatches)

/-- `Injection`. -/
inductive Injection where
  | setHeader (name value : Str)
  | replaceHeader (name value : Str)
  | removeHeader (name : Str)
  | setParam (name value : Str)
  | setPath (template value : Str)
  | replacePathRegex (pattern replacement value : Str)

/-- `InjectionRule`; no function here reads the secret that a rule came from. -/
structure InjectionRule where
  pathPattern : Str
  injections : List Injection

/-- The first match of a regex: the text around it, and `Captures::expand`. -/
structure Captures where
  before : Str
  after : Str
  expand : Str → Str

/-- What the crate calls outside the repository. -/
structure Crates where
  /-- `HeaderName::from_bytes`. -/
  headerName : Str → Option Str
  /-- `HeaderValue::from_str`. -/
  headerValue : Str → Option Str
  /-- `Serializer::append_pair` and `finish`. -/
  appendPair : Str → Str → Str
  /-- `Regex::new`, and the first match in a text. -/
  regex : Str → Option (Str → Option Captures)

section Paths

/-- The character ends the path of a request. -/
def endsPathPart (c : Char) : Bool := c == '?' || c == '#'

/-- `split_path_suffix`. -/
def splitPathSuffix (requestPath : Str) : Str × Str := requestPath.span fun c => !endsPathPart c

/-- `char::is_control`. -/
def isControl (c : Char) : Bool := c.toNat ≤ 0x1F || (0x7F ≤ c.toNat && c.toNat ≤ 0x9F)

/-- `is_path_safe`. -/
def isPathSafe (value : Str) : Bool :=
  !value.any fun c => c == '/' || c == '?' || c == '#' || c == '%' || c == ' ' || isControl c

/-- The placeholder of the secret. -/
def hole : Str := "\x7bvalue\x7d".toList

/-- `str::splitn(2, needle)`, where the needle occurs. -/
def splitFirst (needle : Str) : Str → Option (Str × Str)
  | [] => none
  | c :: s =>
    if needle.isPrefixOf (c :: s) then some ([], (c :: s).drop needle.length)
    else (splitFirst needle s).map fun parts => (c :: parts.1, parts.2)

/-- `str::split("{value}")`; the number bounds the characters that are left. -/
def splitHoles : ℕ → Str → List Str
  | 0, s => [s]
  | n + 1, s =>
    match splitFirst hole s with
    | none => [s]
    | some (front, back) => front :: splitHoles n back

/-- The segments of a query with the first one of the name replaced. -/
def replaceSegment (encodedName encodedPair : Str) : List Str → Option (List Str)
  | [] => none
  | segment :: segments =>
    let segName := ((splitOnce '=' segment).map Prod.fst).getD segment
    if segName = encodedName then some (encodedPair :: segments)
    else (replaceSegment encodedName encodedPair segments).map (segment :: ·)

/-- `apply_set_param`. -/
def applySetParam (crates : Crates) (requestPath name value : Str) : Option Str := do
  let encodedPair := crates.appendPair name value
  let encodedName := (← splitOnce '=' encodedPair).1
  let (beforeFragment, fragment) := requestPath.span (· ≠ '#')
  let replaced :=
    match splitOnce '?' beforeFragment with
    | none => beforeFragment ++ '?' :: encodedPair
    | some (path, query) =>
      if query.isEmpty then beforeFragment ++ encodedPair
      else
        let segments := query.splitOn '&'
        let segments := (replaceSegment encodedName encodedPair segments).getD (segments ++ [encodedPair])
        path ++ '?' :: ['&'].intercalate segments
  return replaced ++ fragment

/-- `apply_set_path`, which answers the rewritten path. -/
def applySetPath (requestPath template value : Str) : Option Str := do
  let (front, back) ← splitFirst hole template
  if (splitFirst hole back).isSome then none
  if !isPathSafe value then none
  let (path, rest) := splitPathSuffix requestPath
  let afterFront ← path.dropPrefix? front
  let afterHole := afterFront.dropWhile (· ≠ '/')
  if !back.isPrefixOf afterHole then none
  let newPath := front ++ value ++ afterHole
  if !"/".toList.isPrefixOf newPath then none
  return newPath ++ rest

/-- `apply_replace_path_regex`, which answers the rewritten path. -/
def applyReplacePathRegex (crates : Crates) (requestPath pattern replacement value : Str) : Option Str := do
  if !isPathSafe value then none
  let find ← crates.regex pattern
  let (path, rest) := splitPathSuffix requestPath
  let captures ← find path
  let segments := splitHoles replacement.length replacement
  let newPath := captures.before ++ value.intercalate (segments.map captures.expand) ++ captures.after
  if !"/".toList.isPrefixOf newPath then none
  return newPath ++ rest

end Paths

section Headers

/-- `hyper::HeaderMap`: names with their values, in no order. -/
abbrev HeaderMap := List (Str × Str)

/-- `HeaderMap::contains_key`. -/
def HeaderMap.containsKey (headers : HeaderMap) (name : Str) : Bool := headers.any fun header => header.1 = name

/-- `HeaderMap::remove`. -/
def HeaderMap.remove (headers : HeaderMap) (name : Str) : HeaderMap := headers.filter fun header => header.1 ≠ name

/-- `HeaderMap::insert`, which replaces all values of the name. -/
def HeaderMap.insert (headers : HeaderMap) (name value : Str) : HeaderMap := (name, value) :: headers.remove name

/-- What `apply_injections` works on. `injected` is a ghost: the names whose value is an injected one. -/
structure Applied where
  headers : HeaderMap
  requestPath : Str
  count : ℕ
  injected : List Str
  deriving DecidableEq

/-- `headers.insert` of an injected value. -/
def Applied.inject (st : Applied) (name value : Str) : Applied :=
  { st with headers := st.headers.insert name value, count := st.count + 1, injected := name :: st.injected }

/-- A rewritten path counts as one injection. -/
def Applied.rewrite (st : Applied) (path : Option Str) : Applied :=
  match path with
  | none => st
  | some path => { st with requestPath := path, count := st.count + 1 }

variable (crates : Crates)

/-- The body of the loop over the injections of a rule. -/
def applyInjection (st : Applied) : Injection → Option Applied
  | .setHeader name value =>
    match crates.headerName name, crates.headerValue value with
    | some headerName, some headerValue => some (st.inject headerName headerValue)
    | _, _ => some st
  | .replaceHeader name value =>
    match crates.headerName name with
    | none => some st
    | some headerName =>
      if st.headers.containsKey headerName then
        match crates.headerValue value with
        | none => some st
        | some headerValue => some (st.inject headerName headerValue)
      else some st
  | .removeHeader name =>
    match crates.headerName name with
    | none => some st
    | some headerName =>
      some { st with
        headers := st.headers.remove headerName
        count := if st.headers.containsKey headerName then st.count + 1 else st.count
        injected := st.injected.filter (· ≠ headerName) }
  | .setParam name value => (applySetParam crates st.requestPath name value).map fun path => st.rewrite (some path)
  | .setPath template value => some (st.rewrite (applySetPath st.requestPath template value))
  | .replacePathRegex pattern replacement value =>
    some (st.rewrite (applyReplacePathRegex crates st.requestPath pattern replacement value))

/-- The body of the loop over the rules. -/
def applyRule (st : Applied) (rule : InjectionRule) : Option Applied := do
  if ← pathMatches st.requestPath rule.pathPattern then rule.injections.foldlM (applyInjection crates) st else some st

/-- `apply_injections`. -/
def applyInjections (headers : HeaderMap) (requestPath : Str) (rules : List InjectionRule) : Option Applied :=
  rules.foldlM (applyRule crates) ⟨headers, requestPath, 0, []⟩

/-- The header that an injection sets, or replaces where the request carries it. -/
def Injection.headerName : Injection → Option Str
  | .setHeader name value | .replaceHeader name value =>
    match crates.headerName name, crates.headerValue value with
    | some headerName, some _ => some headerName
    | _, _ => none
  | _ => none

/-- The body of the loop over the injections in `injected_header_names`. -/
def addName (names : List Str) (injection : Injection) : List Str :=
  match injection.headerName crates with
  | none => names
  | some name => if name ∈ names then names else names ++ [name]

/-- `injected_header_names`. -/
def injectedHeaderNames (rules : List InjectionRule) (requestPath : Str) : Option (List Str) :=
  rules.foldlM (fun names rule => do
    if ← pathMatches requestPath rule.pathPattern then some (rule.injections.foldl (addName crates) names)
    else some names) []

end Headers

end Onecli.Inject
