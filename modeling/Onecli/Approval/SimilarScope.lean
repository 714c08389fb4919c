import Onecli.Gateway.Text

/-!
# What an "approve similar" covers

`scope_for` of `approval/src/similar.rs`: the key of the window that a held request would open.
The key joins its fields with colons and the path with slashes, and puts a star in the place of
the record id.
-/

namespace Onecli.Approval.Similar

open CodeUnits List Option
open Gateway (Str byteLen toAsciiLowercase toAsciiUppercase)

/-- `IdKind`. -/
inductive IdKind where
  | uuid
  | digits
  | salesforce
  deriving DecidableEq

/-- `Seg`. -/
inductive Seg where
  | lit (word : Str)
  | dottedVersion
  | dateVersion
  | recordType
  | id (kind : IdKind)
  deriving DecidableEq

/-- `RecordUpdate`. -/
structure RecordUpdate where
  app : Str
  methods : List Str
  path : List Seg

/-- Attio's "Update a record". -/
def attioUpdate : RecordUpdate :=
  ⟨"attio".toList, ["PUT".toList, "PATCH".toList],
    [.lit "v2".toList, .lit "objects".toList, .recordType, .lit "records".toList, .id .uuid]⟩

/-- HubSpot's "Update" on the v3 path. -/
def hubspotUpdate : RecordUpdate :=
  ⟨"hubspot".toList, ["PATCH".toList],
    [.lit "crm".toList, .lit "v3".toList, .lit "objects".toList, .recordType, .id .digits]⟩

/-- HubSpot's "Update" on the date-versioned path. -/
def hubspotDatedUpdate : RecordUpdate :=
  ⟨"hubspot".toList, ["PATCH".toList],
    [.lit "crm".toList, .lit "objects".toList, .dateVersion, .recordType, .id .digits]⟩

/-- Salesforce's "Update Records Using sObject Rows". -/
def salesforceUpdate : RecordUpdate :=
  ⟨"salesforce".toList, ["PATCH".toList],
    [.lit "services".toList, .lit "data".toList, .dottedVersion, .lit "sobjects".toList, .recordType,
      .id .salesforce]⟩

/-- `RECORD_UPDATES`. -/
def recordUpdates : List RecordUpdate := [attioUpdate, hubspotUpdate, hubspotDatedUpdate, salesforceUpdate]

/-- `SimilarScope`. -/
structure SimilarScope where
  key : Str
  label : Str
  deriving DecidableEq

/-- `HeldRequest`. -/
structure HeldRequest where
  workspaceId : Option Str
  agentId : Option Str
  connectionId : Option Str
  ruleId : Str
  app : Option (Str × Str)
  host : Str
  method : Str
  path : Str

/-- `u8::is_ascii_hexdigit`. -/
def isHexDigit (c : Char) : Bool := c.isDigit || ('a' ≤ c && c ≤ 'f') || ('A' ≤ c && c ≤ 'F')

/-- `all_digits`. -/
def allDigits (s : Str) : Bool := !s.isEmpty && s.all Char.isDigit

/-- `IdKind::matches`. -/
def IdKind.matches (kind : IdKind) (s : Str) : Bool :=
  match kind with
  | .uuid =>
    byteLen s == 36 && s.zipIdx.all fun (c, i) =>
      if i = 8 ∨ i = 13 ∨ i = 18 ∨ i = 23 then c == '-' else isHexDigit c
  | .digits => decide (byteLen s ≤ 20) && allDigits s
  | .salesforce => (byteLen s == 15 || byteLen s == 18) && s.all Char.isAlphanum

/-- `Seg::matches`. -/
def Seg.matches (seg : Seg) (s : Str) : Bool :=
  match seg with
  | .lit word => s == word
  | .dottedVersion =>
    match s with
    | 'v' :: version => (splitOnce '.' version).any fun (major, minor) => allDigits major && allDigits minor
    | _ => false
  | .dateVersion => (splitOnce '-' s).any fun (year, month) =>
      byteLen year == 4 && byteLen month == 2 && allDigits year && allDigits month
  | .recordType =>
    decide (1 ≤ byteLen s) && decide (byteLen s ≤ 64) && s.all fun c => c.isAlphanum || c == '-' || c == '_'
  | .id kind => kind.matches s

/-- A segment that is neither empty nor a dot segment, and holds plain characters alone. -/
def isPlain (s : Str) : Bool :=
  !s.isEmpty && s != ['.'] && s != ['.', '.'] &&
    s.all fun c => c.isAlphanum || c == '-' || c == '_' || c == '.'

/-- `strip_suffix('/').unwrap_or`. -/
def stripSlash (s : Str) : Str := if s.getLast? = some '/' then s.dropLast else s

/-- `path_segments`. -/
def pathSegments (path : Str) : Option (List Str) :=
  if path.contains '?' || path.contains '#' then none
  else match path with
    | '/' :: rest =>
      let segments := (stripSlash rest).splitOn '/'
      if segments.all isPlain then some segments else none
    | _ => none

/-- `non_empty`. -/
def nonEmpty (value : Option Str) : Option Str := value.filter (!·.isEmpty)

/-- The segments match the path of an endpoint. -/
def RecordUpdate.covers (endpoint : RecordUpdate) (segments : List Str) : Bool :=
  endpoint.path.length == segments.length &&
    (endpoint.path.zip segments).all fun (seg, s) => seg.matches s

/-- The endpoint of a request: the first of `RECORD_UPDATES` that it is an update of. -/
def endpointOf (app method : Str) (segments : List Str) : Option RecordUpdate :=
  recordUpdates.find? fun e => e.app == app && e.methods.contains method && e.covers segments

/-- The record type that the segments name. -/
def recordTypeOf (endpoint : RecordUpdate) (segments : List Str) : Option Str :=
  (endpoint.path.zip segments).findSome? fun (seg, s) => if seg = .recordType then some s else none

/-- The segments with a star in the place of an id. -/
def shapeOf (path : List Seg) (segments : List Str) : List Str :=
  (path.zip segments).map fun (seg, s) =>
    match seg with
    | .id _ => ['*']
    | _ => s

/-- `scope_for`. -/
def scopeFor (req : HeldRequest) : Option SimilarScope := do
  let workspaceId ← nonEmpty req.workspaceId
  let agentId ← nonEmpty req.agentId
  let connectionId ← nonEmpty req.connectionId
  let ruleId ← nonEmpty (some req.ruleId)
  let host ← (nonEmpty (some req.host)).map toAsciiLowercase
  if !host.all fun c => c.isAlphanum || c == '-' || c == '.' then none
  else
    let (app, appName) ← req.app
    let method := toAsciiUppercase req.method
    let segments ← pathSegments req.path
    let endpoint ← endpointOf app method segments
    let recordType ← recordTypeOf endpoint segments
    let shape := ['/'].intercalate (shapeOf endpoint.path segments)
    let label :=
      if IdKind.uuid.matches recordType then appName ++ " updates to one record type".toList
      else appName ++ " updates to ".toList ++ recordType
    some ⟨[':'].intercalate ["approval-similar".toList, workspaceId, agentId, connectionId, ruleId, host, app,
      method, '/' :: shape], label⟩

/-! ## What two requests of one key have in common -/

/-- Two paths are the same but where the endpoint has a record id, and there both hold one. -/
def Alike : List Seg → List Str → List Str → Prop
  | [], [], [] => True
  | .id kind :: path, x :: xs, y :: ys => kind.matches x = true ∧ kind.matches y = true ∧ Alike path xs ys
  | _ :: path, x :: xs, y :: ys => x = y ∧ Alike path xs ys
  | _, _, _ => False

/-- The paths of two requests are alike on one endpoint. -/
def AlikePaths (a b : HeldRequest) : Prop :=
  ∃ xs ys, pathSegments a.path = some xs ∧ pathSegments b.path = some ys ∧ ∃ e ∈ recordUpdates, Alike e.path xs ys

/-- Everything else that the key is made of is the same. -/
structure SameContext (a b : HeldRequest) : Prop where
  workspaceId : a.workspaceId = b.workspaceId
  agentId : a.agentId = b.agentId
  connectionId : a.connectionId = b.connectionId
  ruleId : a.ruleId = b.ruleId
  host : toAsciiLowercase a.host = toAsciiLowercase b.host
  app : a.app.map Prod.fst = b.app.map Prod.fst
  method : toAsciiUppercase a.method = toAsciiUppercase b.method

/-- The ids of a request hold no colon. -/
structure ColonFree (req : HeldRequest) : Prop where
  workspaceId : ∀ id ∈ req.workspaceId, ':' ∉ id
  agentId : ∀ id ∈ req.agentId, ':' ∉ id
  connectionId : ∀ id ∈ req.connectionId, ':' ∉ id
  ruleId : ':' ∉ req.ruleId

/-- The endpoint and the record type that a request updates. -/
def updateOf (req : HeldRequest) : Option (RecordUpdate × Str) := do
  let (app, _) ← req.app
  let segments ← pathSegments req.path
  let endpoint ← endpointOf app (toAsciiUppercase req.method) segments
  let recordType ← recordTypeOf endpoint segments
  return (endpoint, recordType)

/-! ## Segments -/

theorem not_mem_of_isPlain {s : Str} (h : isPlain s = true) {c : Char} (hc : c = '/' ∨ c = ':' ∨ c = '*') :
    c ∉ s := by
  unfold isPlain at h
  rw [Bool.and_eq_true] at h
  intro hmem
  have hchar := List.all_eq_true.mp h.2 c hmem
  rcases hc with rfl | rfl | rfl <;> exact absurd hchar (by decide)

variable {segments : List Str} {path : List Seg} {endpoint : RecordUpdate} {xs ys : List Str} {req : HeldRequest}
  {p : Parts} {a b : HeldRequest}

theorem isPlain_of_pathSegments {path : Str} (h : pathSegments path = some segments) :
    ∀ s ∈ segments, isPlain s = true := by
  unfold pathSegments at h
  split_ifs at h
  split at h
  · dsimp only at h
    split_ifs at h with hplain
    exact some.inj h ▸ List.all_eq_true.mp hplain
  · cases h

theorem mem_shapeOf {s : Str} (h : s ∈ shapeOf path segments) : s = ['*'] ∨ s ∈ segments := by
  obtain ⟨⟨seg, t⟩, hmem, rfl⟩ := List.mem_map.mp h
  cases seg with
  | id => exact Or.inl rfl
  | _ => exact Or.inr (of_mem_zip hmem).2

/-- The segment of a record id. -/
def Seg.isId : Seg → Bool
  | .id _ => true
  | _ => false

/-- The path ends in the record id, and has no other. -/
def EndsInId (path init : List Seg) (kind : IdKind) : Prop := path = init ++ [.id kind] ∧ init.all (!·.isId) = true

/-- Every record path ends in an id. -/
theorem endsInId_of_mem (h : endpoint ∈ recordUpdates) : ∃ init kind, EndsInId endpoint.path init kind := by
  simp only [recordUpdates, mem_cons, not_mem_nil, or_false] at h
  rcases h with rfl | rfl | rfl | rfl
  · exact ⟨attioUpdate.path.dropLast, .uuid, rfl, rfl⟩
  · exact ⟨hubspotUpdate.path.dropLast, .digits, rfl, rfl⟩
  · exact ⟨hubspotDatedUpdate.path.dropLast, .digits, rfl, rfl⟩
  · exact ⟨salesforceUpdate.path.dropLast, .salesforce, rfl, rfl⟩

/-- A covered path ends in an id. -/
theorem snoc_of_covers {init : List Seg} {kind : IdKind} (hpath : EndsInId endpoint.path init kind)
    (h : endpoint.covers segments = true) :
    ∃ front id, segments = front ++ [id] ∧ init.length = front.length ∧ kind.matches id = true := by
  obtain ⟨hpath, -⟩ := hpath
  simp only [RecordUpdate.covers, Bool.and_eq_true, beq_iff_eq, hpath, length_append, length_singleton] at h
  obtain ⟨hlen, hall⟩ := h
  obtain ⟨front, id, rfl⟩ : ∃ front id, segments = front ++ [id] := by
    cases segments using List.reverseRecOn with
    | nil => simp at hlen
    | append_singleton front id => exact ⟨front, id, rfl⟩
  have hfront : init.length = front.length := by simpa using hlen
  rw [zip_append hfront] at hall
  refine ⟨front, id, rfl, hfront, ?_⟩
  simpa [Seg.matches] using List.all_eq_true.mp hall (.id kind, id) (by simp)

theorem shapeOf_of_no_id (hlen : path.length = segments.length) (h : path.all (!·.isId) = true) :
    shapeOf path segments = segments := by
  induction path generalizing segments with
  | nil => exact (length_eq_zero_iff.mp hlen.symm).symm
  | cons seg path ih =>
    obtain ⟨s, segments, rfl⟩ : ∃ s t, segments = s :: t := by
      cases segments with
      | nil => cases hlen
      | cons s t => exact ⟨s, t, rfl⟩
    rw [all_cons, Bool.and_eq_true] at h
    have hrest := ih (by simpa using hlen) h.2
    cases seg with
    | id => cases h.1
    | _ => exact congrArg (s :: ·) hrest

theorem shapeOf_of_covers (hmem : endpoint ∈ recordUpdates) (h : endpoint.covers segments = true) :
    shapeOf endpoint.path segments = segments.dropLast ++ [['*']] := by
  obtain ⟨init, kind, hpath⟩ := endsInId_of_mem hmem
  obtain ⟨front, id, rfl, hlen, -⟩ := snoc_of_covers hpath h
  have hfront := shapeOf_of_no_id hlen hpath.2
  rw [shapeOf] at hfront
  rw [hpath.1, shapeOf, zip_append hlen, map_append, hfront, dropLast_concat]
  rfl

/-- Records that differ in their id alone have one type. -/
theorem recordTypeOf_eq_of_dropLast (hmem : endpoint ∈ recordUpdates) (hx : endpoint.covers xs = true)
    (hy : endpoint.covers ys = true) (h : xs.dropLast = ys.dropLast) :
    recordTypeOf endpoint xs = recordTypeOf endpoint ys := by
  obtain ⟨init, kind, hpath⟩ := endsInId_of_mem hmem
  obtain ⟨front, x, rfl, hlen, -⟩ := snoc_of_covers hpath hx
  obtain ⟨front', y, rfl, hlen', -⟩ := snoc_of_covers hpath hy
  simp only [dropLast_concat] at h
  subst h
  simp only [recordTypeOf, hpath.1, zip_append hlen, List.findSome?_append]
  rfl

theorem alike_cons {seg : Seg} (h : (!seg.isId) = true) {x y : Str} :
    Alike (seg :: path) (x :: xs) (y :: ys) ↔ x = y ∧ Alike path xs ys := by
  cases seg with
  | id => cases h
  | _ => exact Iff.rfl

theorem cons_of_alike {seg : Seg} (h : Alike (seg :: path) xs ys) : ∃ x xs' y ys', xs = x :: xs' ∧ ys = y :: ys' := by
  cases xs with
  | nil => cases seg <;> cases h
  | cons x xs =>
    cases ys with
    | nil => cases seg <;> cases h
    | cons y ys => exact ⟨x, xs, y, ys, rfl, rfl⟩

theorem alike_snoc_iff {init : List Seg} {kind : IdKind} (hinit : init.all (!·.isId) = true) :
    Alike (init ++ [.id kind]) xs ys ↔ ∃ front x y, init.length = front.length ∧ xs = front ++ [x] ∧
      ys = front ++ [y] ∧ kind.matches x = true ∧ kind.matches y = true := by
  induction init generalizing xs ys with
  | nil =>
    constructor
    · intro h
      obtain ⟨x, xs, y, ys, rfl, rfl⟩ := cons_of_alike h
      obtain ⟨hx, hy, hrest⟩ := h
      cases xs with
      | cons => cases hrest
      | nil =>
        cases ys with
        | cons => cases hrest
        | nil => exact ⟨[], x, y, rfl, rfl, rfl, hx, hy⟩
    · rintro ⟨front, x, y, hlen, rfl, rfl, hx, hy⟩
      rw [length_eq_zero_iff.mp hlen.symm]
      exact ⟨hx, hy, trivial⟩
  | cons seg init ih =>
    rw [all_cons, Bool.and_eq_true] at hinit
    constructor
    · intro h
      obtain ⟨x, xs, y, ys, rfl, rfl⟩ := cons_of_alike h
      obtain ⟨rfl, hrest⟩ := (alike_cons hinit.1).mp h
      obtain ⟨front, x', y', hlen, rfl, rfl, hids⟩ := (ih hinit.2).mp hrest
      exact ⟨x :: front, x', y', congrArg (· + 1) hlen, rfl, rfl, hids⟩
    · rintro ⟨front, x, y, hlen, rfl, rfl, hids⟩
      obtain _ | ⟨s, front⟩ := front
      · cases hlen
      · exact (alike_cons hinit.1).mpr
          ⟨rfl, (ih hinit.2).mpr ⟨front, x, y, Nat.succ.inj hlen, rfl, rfl, hids⟩⟩

theorem alike_iff_of_covers (hmem : endpoint ∈ recordUpdates) (hx : endpoint.covers xs = true)
    (hy : endpoint.covers ys = true) : Alike endpoint.path xs ys ↔ xs.dropLast = ys.dropLast := by
  obtain ⟨init, kind, hpath⟩ := endsInId_of_mem hmem
  obtain ⟨front, x, rfl, hlen, hidx⟩ := snoc_of_covers hpath hx
  obtain ⟨front', y, rfl, hlen', hidy⟩ := snoc_of_covers hpath hy
  rw [hpath.1, alike_snoc_iff hpath.2, dropLast_concat, dropLast_concat]
  constructor
  · rintro ⟨common, u, v, -, hu, hv, -⟩
    rw [(List.append_inj' hu rfl).1, (List.append_inj' hv rfl).1]
  · rintro rfl
    exact ⟨front, x, y, hlen, rfl, rfl, hidx, hidy⟩

theorem dropLast_of_alike (hmem : endpoint ∈ recordUpdates) (h : Alike endpoint.path xs ys) :
    xs.dropLast = ys.dropLast := by
  obtain ⟨init, kind, hpath⟩ := endsInId_of_mem hmem
  rw [hpath.1, alike_snoc_iff hpath.2] at h
  obtain ⟨front, x, y, -, rfl, rfl, -⟩ := h
  rw [dropLast_concat, dropLast_concat]

/-! ## One app's endpoints -/

theorem hubspot_second (hx : hubspotUpdate.covers xs = true) (hy : hubspotDatedUpdate.covers ys = true) :
    xs.dropLast ≠ ys.dropLast := by
  intro h
  obtain _ | ⟨x₀, _ | ⟨x₁, _ | ⟨x₂, xs⟩⟩⟩ := xs
  · cases hx
  · cases hx
  · cases hx
  obtain _ | ⟨y₀, _ | ⟨y₁, _ | ⟨y₂, ys⟩⟩⟩ := ys
  · cases hy
  · cases hy
  · cases hy
  simp only [RecordUpdate.covers, hubspotUpdate, zip_cons_cons, all_cons, Seg.matches,
    Bool.and_eq_true, beq_iff_eq] at hx
  simp only [RecordUpdate.covers, hubspotDatedUpdate, zip_cons_cons, all_cons, Seg.matches,
    Bool.and_eq_true, beq_iff_eq] at hy
  have hword : x₁ = y₁ := (List.cons.inj (List.cons.inj h).2).1
  rw [hx.2.2.1, hy.2.2.1] at hword
  exact absurd hword (by decide)

/-- A path has one endpoint. -/
theorem endpoint_eq {ea eb : RecordUpdate} (ha : ea ∈ recordUpdates) (hb : eb ∈ recordUpdates) (happ : ea.app = eb.app)
    (hx : ea.covers xs = true) (hy : eb.covers ys = true) (h : xs.dropLast = ys.dropLast) : ea = eb := by
  simp only [recordUpdates, mem_cons, not_mem_nil, or_false] at ha hb
  rcases ha with rfl | rfl | rfl | rfl <;> rcases hb with rfl | rfl | rfl | rfl
  all_goals first
    | rfl
    | exact absurd happ (by decide)
    | exact absurd h (hubspot_second hx hy)
    | exact absurd h.symm (hubspot_second hy hx)

/-- The endpoint that is found covers the path. -/
theorem endpointOf_spec {app method : Str} (h : endpointOf app method segments = some endpoint) :
    endpoint ∈ recordUpdates ∧ endpoint.app = app ∧ method ∈ endpoint.methods ∧ endpoint.covers segments = true := by
  have hspec := List.find?_some h
  simp only [Bool.and_eq_true, beq_iff_eq, contains_iff_mem] at hspec
  exact ⟨List.mem_of_find?_eq_some h, hspec.1.1, hspec.1.2, hspec.2⟩

/-! ## The key -/

/-- What a key is made of. -/
structure Parts where
  workspaceId : Str
  agentId : Str
  connectionId : Str
  ruleId : Str
  host : Str
  app : Str
  method : Str
  segments : List Str
  endpoint : RecordUpdate

/-- The fields of the key. -/
def Parts.fields (p : Parts) : List Str :=
  ["approval-similar".toList, p.workspaceId, p.agentId, p.connectionId, p.ruleId, p.host, p.app, p.method,
    '/' :: ['/'].intercalate (shapeOf p.endpoint.path p.segments)]

/-- The parts are those of a request. -/
structure Parts.Of (p : Parts) (req : HeldRequest) : Prop where
  workspaceId : req.workspaceId = some p.workspaceId
  agentId : req.agentId = some p.agentId
  connectionId : req.connectionId = some p.connectionId
  ruleId : req.ruleId = p.ruleId
  host : toAsciiLowercase req.host = p.host
  plainHost : p.host.all (fun c => c.isAlphanum || c == '-' || c == '.') = true
  app : req.app.map Prod.fst = some p.app
  method : toAsciiUppercase req.method = p.method
  segments : pathSegments req.path = some p.segments
  endpoint : endpointOf p.app p.method p.segments = some p.endpoint

theorem eq_of_nonEmpty {value : Option Str} {s : Str} (h : nonEmpty value = some s) : value = some s :=
  (filter_eq_some_iff.mp h).1

/-- A scope's key joins its parts. -/
theorem parts_of_scopeFor {scope : SimilarScope} (h : scopeFor req = some scope) :
    ∃ p : Parts, p.Of req ∧ scope.key = [':'].intercalate p.fields := by
  obtain ⟨space, hspace, h⟩ := bind_eq_some_iff.mp h
  obtain ⟨agentId, hagent, h⟩ := bind_eq_some_iff.mp h
  obtain ⟨connId, hconn, h⟩ := bind_eq_some_iff.mp h
  obtain ⟨ruleId, hrule, h⟩ := bind_eq_some_iff.mp h
  obtain ⟨host, hhost, h⟩ := bind_eq_some_iff.mp h
  split_ifs at h with hplain
  obtain ⟨⟨app, appName⟩, happ, h⟩ := bind_eq_some_iff.mp h
  obtain ⟨segments, hsegments, h⟩ := bind_eq_some_iff.mp h
  obtain ⟨endpoint, hendpoint, h⟩ := bind_eq_some_iff.mp h
  obtain ⟨recordType, -, h⟩ := bind_eq_some_iff.mp h
  obtain ⟨host', hhost', rfl⟩ := map_eq_some_iff.mp hhost
  refine ⟨⟨space, agentId, connId, ruleId, toAsciiLowercase host', app,
    toAsciiUppercase req.method, segments, endpoint⟩,
    ⟨eq_of_nonEmpty hspace, eq_of_nonEmpty hagent, eq_of_nonEmpty hconn, some.inj (eq_of_nonEmpty hrule),
      congrArg toAsciiLowercase (some.inj (eq_of_nonEmpty hhost')), ?_,
      congrArg (Option.map Prod.fst) happ, rfl, hsegments, hendpoint⟩, ?_⟩
  · simpa only [Bool.not_eq_true', Bool.not_eq_false] using hplain
  · rw [← some.inj h]
    rfl

theorem colon_free_table :
    ∀ e ∈ recordUpdates, ':' ∉ e.app ∧ ∀ method ∈ e.methods, ':' ∉ method := by decide

theorem not_mem_shape (h : p.Of req) {c : Char} (hc : c = '/' ∨ c = ':') :
    ∀ s ∈ shapeOf p.endpoint.path p.segments, c ∉ s := by
  intro s hs
  rcases mem_shapeOf hs with rfl | hmem
  · rcases hc with rfl | rfl <;> decide
  · exact not_mem_of_isPlain (isPlain_of_pathSegments h.segments s hmem) (hc.imp_right Or.inl)

theorem not_mem_join {c : Char} (hc : c ≠ '/') {words : List Str} (h : ∀ s ∈ words, c ∉ s) :
    c ∉ ['/'].intercalate words := by
  induction words with
  | nil => simp
  | cons word words ih =>
    have hword := h word mem_cons_self
    have hrest := ih fun s hs => h s (mem_cons_of_mem _ hs)
    cases words with
    | nil => simpa using hword
    | cons => simp [intercalate_cons_cons, hword, hc, hrest]

theorem Parts.Of.colon_free (h : p.Of req) (hfree : ColonFree req) : ∀ field ∈ p.fields, ':' ∉ field := by
  obtain ⟨hmem, happ, hmethod, -⟩ := endpointOf_spec h.endpoint
  obtain ⟨hcolonApp, hcolonMethod⟩ := colon_free_table _ hmem
  have hhost : ':' ∉ p.host := fun hin =>
    absurd (List.all_eq_true.mp h.plainHost ':' hin) (by decide)
  have hshape : ':' ∉ '/' :: ['/'].intercalate (shapeOf p.endpoint.path p.segments) :=
    not_mem_cons_of_ne_of_not_mem (by decide) (not_mem_join (by decide) (not_mem_shape h (Or.inr rfl)))
  simp only [Parts.fields, forall_mem_cons]
  exact ⟨by decide, hfree.workspaceId _ h.workspaceId, hfree.agentId _ h.agentId,
    hfree.connectionId _ h.connectionId, h.ruleId ▸ hfree.ruleId, hhost, happ ▸ hcolonApp,
    hcolonMethod _ hmethod, hshape, forall_mem_nil _⟩

theorem Parts.Of.shape (h : p.Of req) :
    shapeOf p.endpoint.path p.segments = p.segments.dropLast ++ [['*']] :=
  have hspec := endpointOf_spec h.endpoint
  shapeOf_of_covers hspec.1 hspec.2.2.2

/-- Keys are equal exactly where their parts are. -/
theorem key_eq_iff {p q : Parts} (hp : p.Of a) (hq : q.Of b) (ha : ColonFree a) (hb : ColonFree b) :
    [':'].intercalate p.fields = [':'].intercalate q.fields ↔
      p.workspaceId = q.workspaceId ∧ p.agentId = q.agentId ∧ p.connectionId = q.connectionId ∧
        p.ruleId = q.ruleId ∧ p.host = q.host ∧ p.app = q.app ∧ p.method = q.method ∧
        p.segments.dropLast = q.segments.dropLast := by
  constructor
  · intro h
    have hfields : p.fields = q.fields := by
      rw [← splitOn_intercalate ':' (hp.colon_free ha) (by simp [Parts.fields]), h,
        splitOn_intercalate ':' (hq.colon_free hb) (by simp [Parts.fields])]
    simp only [Parts.fields, List.cons.injEq, true_and, and_true] at hfields
    obtain ⟨hspace, hagent, hconn, hrule, hhost, happ, hmethod, hpath⟩ := hfields
    have hshape : shapeOf p.endpoint.path p.segments = shapeOf q.endpoint.path q.segments := by
      rw [← splitOn_intercalate '/' (not_mem_shape hp (Or.inl rfl)) (by simp [hp.shape]), hpath,
        splitOn_intercalate '/' (not_mem_shape hq (Or.inl rfl)) (by simp [hq.shape])]
    rw [hp.shape, hq.shape] at hshape
    exact ⟨hspace, hagent, hconn, hrule, hhost, happ, hmethod, (List.append_inj' hshape rfl).1⟩
  · rintro ⟨hspace, hagent, hconn, hrule, hhost, happ, hmethod, hsegments⟩
    rw [Parts.fields, Parts.fields, hp.shape, hq.shape, hspace, hagent, hconn, hrule, hhost, happ, hmethod, hsegments]

/-- A context is its parts. -/
theorem sameContext_iff {p q : Parts} (hp : p.Of a) (hq : q.Of b) :
    SameContext a b ↔ p.workspaceId = q.workspaceId ∧ p.agentId = q.agentId ∧
      p.connectionId = q.connectionId ∧ p.ruleId = q.ruleId ∧ p.host = q.host ∧ p.app = q.app ∧
      p.method = q.method := by
  constructor
  · intro h
    refine ⟨?_, ?_, ?_, ?_, ?_, ?_, ?_⟩
    · exact some.inj (by rw [← hp.workspaceId, ← hq.workspaceId, h.workspaceId])
    · exact some.inj (by rw [← hp.agentId, ← hq.agentId, h.agentId])
    · exact some.inj (by rw [← hp.connectionId, ← hq.connectionId, h.connectionId])
    · rw [← hp.ruleId, ← hq.ruleId, h.ruleId]
    · rw [← hp.host, ← hq.host, h.host]
    · exact some.inj (by rw [← hp.app, ← hq.app, h.app])
    · rw [← hp.method, ← hq.method, h.method]
  · rintro ⟨hspace, hagent, hconn, hrule, hhost, happ, hmethod⟩
    constructor
    · rw [hp.workspaceId, hq.workspaceId, hspace]
    · rw [hp.agentId, hq.agentId, hagent]
    · rw [hp.connectionId, hq.connectionId, hconn]
    · rw [hp.ruleId, hq.ruleId, hrule]
    · rw [hp.host, hq.host, hhost]
    · rw [hp.app, hq.app, happ]
    · rw [hp.method, hq.method, hmethod]

/-- Paths are alike up to the record's id. -/
theorem alikePaths_iff {p q : Parts} (hp : p.Of a) (hq : q.Of b) (happ : p.app = q.app) :
    AlikePaths a b ↔ p.segments.dropLast = q.segments.dropLast := by
  obtain ⟨hmem, hpapp, -, hcovers⟩ := endpointOf_spec hp.endpoint
  obtain ⟨hmem', hqapp, -, hcovers'⟩ := endpointOf_spec hq.endpoint
  constructor
  · rintro ⟨xs, ys, hxs, hys, e, he, halike⟩
    rw [hp.segments, Option.some.injEq] at hxs
    rw [hq.segments, Option.some.injEq] at hys
    rw [hxs, hys]
    exact dropLast_of_alike he halike
  · intro h
    have hsame : p.endpoint = q.endpoint := endpoint_eq hmem hmem' (by rw [hpapp, hqapp, happ]) hcovers hcovers' h
    exact ⟨p.segments, q.segments, hp.segments, hq.segments, p.endpoint, hmem,
      (alike_iff_of_covers hmem hcovers (hsame ▸ hcovers')).mpr h⟩

/-- What an update is of, by its parts. -/
theorem Parts.Of.updateOf (h : p.Of req) :
    updateOf req = (recordTypeOf p.endpoint p.segments).map fun recordType => (p.endpoint, recordType) := by
  obtain ⟨⟨app, appName⟩, happ, hname⟩ := map_eq_some_iff.mp h.app
  obtain rfl : app = p.app := hname
  simp only [Similar.updateOf, happ, h.segments, h.method, h.endpoint, bind_eq_bind, bind_some]
  cases recordTypeOf p.endpoint p.segments <;> rfl

/-- Two requests that are offered a scope have one key when, and only when, they agree on the
workspace, the agent, the connection, the rule, the host, the app and the method, and their paths
differ in the record id alone; then they update one record type through one endpoint. -/
theorem similar_scope_key_exact (a b : HeldRequest) (sa sb : SimilarScope) (ha : scopeFor a = some sa)
    (hb : scopeFor b = some sb) (hfa : ColonFree a) (hfb : ColonFree b) :
    (sa.key = sb.key ↔ SameContext a b ∧ AlikePaths a b) ∧ (sa.key = sb.key → updateOf a = updateOf b) := by
  obtain ⟨p, hp, hpkey⟩ := parts_of_scopeFor ha
  obtain ⟨q, hq, hqkey⟩ := parts_of_scopeFor hb
  rw [hpkey, hqkey, key_eq_iff hp hq hfa hfb, sameContext_iff hp hq]
  constructor
  · constructor
    · rintro ⟨hworkspace, hagent, hconnection, hrule, hhost, happ, hmethod, hsegments⟩
      exact ⟨⟨hworkspace, hagent, hconnection, hrule, hhost, happ, hmethod⟩,
        (alikePaths_iff hp hq happ).mpr hsegments⟩
    · rintro ⟨⟨hworkspace, hagent, hconnection, hrule, hhost, happ, hmethod⟩, halike⟩
      exact ⟨hworkspace, hagent, hconnection, hrule, hhost, happ, hmethod, (alikePaths_iff hp hq happ).mp halike⟩
  · rintro ⟨-, -, -, -, -, happ, -, hsegments⟩
    obtain ⟨hmem, hpapp, -, hcovers⟩ := endpointOf_spec hp.endpoint
    obtain ⟨hmem', hqapp, -, hcovers'⟩ := endpointOf_spec hq.endpoint
    have hsame : p.endpoint = q.endpoint :=
      endpoint_eq hmem hmem' (by rw [hpapp, hqapp, happ]) hcovers hcovers' hsegments
    rw [hp.updateOf, hq.updateOf, ← hsame, recordTypeOf_eq_of_dropLast hmem hcovers (hsame ▸ hcovers') hsegments]

/-- An update of a HubSpot record. -/
def hubspotRequest (host method path : Str) : HeldRequest :=
  ⟨some "w1".toList, some "a1".toList, some "c1".toList, "r1".toList,
    some ("hubspot".toList, "HubSpot".toList), host, method, path⟩

/-- The request has no colon in its parts. -/
theorem hubspotRequest_colonFree (host method path : Str) : ColonFree (hubspotRequest host method path) :=
  ⟨by simp [hubspotRequest], by simp [hubspotRequest], by simp [hubspotRequest], by simp [hubspotRequest]⟩

/-- The scope of HubSpot's companies. -/
def companiesScope : SimilarScope :=
  ⟨"approval-similar:w1:a1:c1:r1:api.hubapi.com:hubspot:PATCH:/crm/v3/objects/companies/*".toList,
    "HubSpot updates to companies".toList⟩

/-- Two companies share a key, also in another case of the host and with a trailing slash. -/
theorem similar_scope_key_exact_companies :
    (SameContext (hubspotRequest "api.hubapi.com".toList "PATCH".toList "/crm/v3/objects/companies/12".toList)
        (hubspotRequest "API.hubapi.com".toList "patch".toList "/crm/v3/objects/companies/345/".toList) ∧
      AlikePaths (hubspotRequest "api.hubapi.com".toList "PATCH".toList "/crm/v3/objects/companies/12".toList)
        (hubspotRequest "API.hubapi.com".toList "patch".toList "/crm/v3/objects/companies/345/".toList)) ∧
    updateOf (hubspotRequest "api.hubapi.com".toList "PATCH".toList "/crm/v3/objects/companies/12".toList) =
      updateOf (hubspotRequest "API.hubapi.com".toList "patch".toList "/crm/v3/objects/companies/345/".toList) :=
  have hexact := similar_scope_key_exact _ _ companiesScope companiesScope (by decide +kernel)
    (by decide +kernel) (hubspotRequest_colonFree _ _ _) (hubspotRequest_colonFree _ _ _)
  ⟨hexact.1.mp rfl, hexact.2 rfl⟩

end Onecli.Approval.Similar
