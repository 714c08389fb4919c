import Onecli.Gateway.Text

/-!
# Secrets in the text of a request

The masks of `summary/src/redact.rs`. The raw request view shows the body as it was sent, which may be cut anywhere, so its
text is scanned and not parsed. The scans of the source go byte by byte; every byte they look for is ASCII, so they stop at
characters, and a position is modelled by the text from it on.
-/

namespace Onecli.Summary.Redact

open CodeUnits List Nat
open Gateway (Str byteLen toAsciiLowercase eqIgnoreAsciiCase isWhitespace trim containsStr)

/-! ## Keys -/

/-- The fragments of `is_sensitive_key`. -/
def sensitiveFragments : List Str :=
  ["authorization".toList, "password".toList, "passwd".toList, "secret".toList, "token".toList, "api_key".toList,
    "apikey".toList, "access_key".toList, "accesskey".toList, "private_key".toList, "client_secret".toList,
    "refresh_token".toList, "twofactor".toList, "two_factor".toList, "cookie".toList]

/-- `is_sensitive_key`. -/
def isSensitiveKey (k : Str) : Bool :=
  let k := (toAsciiLowercase k).map fun c => if c = '-' ∨ c = ' ' then '_' else c
  k == "pin".toList || sensitiveFragments.any fun p => containsStr k p

/-! ## JSON -/

/-- `u8::is_ascii_whitespace`. -/
def isAsciiWhitespace (c : Char) : Bool := c == ' ' || c == '\t' || c == '\n' || c == '\x0c' || c == '\r'

/-- `string_end`, from behind an opening quotation mark: what stands before the closing one, and the text from it on. -/
def scanString : Str → Str × Str
  | [] => ([], [])
  | c :: s =>
    if c = '"' then ([], c :: s)
    else if c = '\\' then
      match s with
      | [] => ([c], [])
      | d :: s => ((c :: d :: (scanString s).1), (scanString s).2)
    else (c :: (scanString s).1, (scanString s).2)

/-- A scan leaves no more than it had. -/
theorem length_scanString (s : Str) : (scanString s).2.length ≤ s.length := by
  fun_induction scanString s with
  | case1 | case2 s => exact le_refl _
  | case3 => exact zero_le _
  | case4 d s hquote ih => exact le_trans ih (le_add_right _ 2)
  | case5 c s hquote hslash ih => exact le_trans ih (le_succ _)

/-- `container_end`: the text behind an object or array, `depth` of which are open. -/
def containerRest (depth : ℕ) : Str → Str
  | [] => []
  | c :: s =>
    if c = '"' then containerRest depth ((scanString s).2.drop 1)
    else if c = '\x7b' ∨ c = '[' then containerRest (depth + 1) s
    else if c = '\x7d' ∨ c = ']' then
      if depth - 1 = 0 then s else containerRest (depth - 1) s
    else containerRest depth s
termination_by s => s.length
decreasing_by
  · have := length_scanString s
    simp
    omega
  all_goals exact lt_succ_self _

theorem length_containerRest (depth : ℕ) (s : Str) : (containerRest depth s).length ≤ s.length := by
  fun_induction containerRest depth s with
  | case1 => exact le_refl _
  | case2 depth s ih =>
    have hscan := length_scanString s
    rw [length_drop] at ih
    rw [length_cons]
    omega
  | case3 depth c s hquote hopen ih | case5 depth c s hquote hopen hclose hdepth ih
  | case6 depth c s hquote hopen hclose ih => exact le_trans ih (le_succ _)
  | case4 => exact le_succ _

/-- The characters of a number or a literal. -/
def inScalar (c : Char) : Bool := !(c == ',' || c == '\x7d' || c == ']') && !isAsciiWhitespace c

/-- What is masked of the value that a text begins with: what is kept of it in front, and the text from which copying and
scanning go on. -/
def maskedValue : Str → Str × Str
  | [] => ([], [])
  | c :: s =>
    if c = '"' then ('"' :: "***".toList ++ (scanString s).2.take 1, (scanString s).2.drop 1)
    else if c = '\x7b' ∨ c = '[' then ("\"***\"".toList, containerRest 0 (c :: s))
    else ("\"***\"".toList, (c :: s).dropWhile inScalar)

theorem length_maskedValue (s : Str) : (maskedValue s).2.length ≤ s.length := by
  unfold maskedValue
  split
  · exact le_refl _
  · next c s =>
    have hscan := length_scanString s
    split_ifs
    · rw [length_drop, length_cons]
      omega
    · exact length_containerRest 0 _
    · exact (dropWhile_suffix inScalar).length_le

/-- What follows a string, past white space and the colon behind it, where it is a key. -/
def afterColon (close : Str) : Option Str :=
  match close with
  | [] => none
  | _ :: afterKey =>
    match afterKey.dropWhile isAsciiWhitespace with
    | ':' :: s => some s
    | _ => none

theorem length_afterColon {close s : Str} (h : afterColon close = some s) : s.length + 2 ≤ close.length := by
  unfold afterColon at h
  split at h
  · cases h
  · next q afterKey =>
    have hdrop := (dropWhile_suffix (l := afterKey) isAsciiWhitespace).length_le
    split at h
    · next t heq =>
      cases h
      rw [heq, length_cons] at hdrop
      rw [length_cons]
      omega
    · cases h

/-- A string, what stands between it and its colon, the colon and the white space behind it. -/
def keyText (key close after : Str) : Str :=
  '"' :: key ++ close.take (close.length - after.length) ++ after.takeWhile isAsciiWhitespace

/-- What the scan does at a character: what it copies and masks, the text from which it goes on, and whether it masks. -/
def jsonStep (c : Char) (s : Str) : Str × Str × Bool :=
  if c ≠ '"' then ([c], s, false)
  else
    match afterColon (scanString s).2 with
    | none =>
      -- a string value, not a key
      ('"' :: (scanString s).1 ++ (scanString s).2.take 1, (scanString s).2.drop 1, false)
    | some after =>
      let value := after.dropWhile isAsciiWhitespace
      let front := keyText (scanString s).1 (scanString s).2 after
      if value = [] ∨ isSensitiveKey (scanString s).1 = false then (front, value, false)
      else (front ++ (maskedValue value).1, (maskedValue value).2, true)

/-- A step leaves no more than it had. -/
theorem length_jsonStep (c : Char) (s : Str) : (jsonStep c s).2.1.length ≤ s.length := by
  have hscan := length_scanString s
  unfold jsonStep
  split_ifs
  · exact le_refl _
  · split
    · exact le_trans (drop_suffix 1 _).length_le hscan
    · next after hafter =>
      have hcolon := length_afterColon hafter
      have hdrop := (dropWhile_suffix (l := after) isAsciiWhitespace).length_le
      have hmasked := length_maskedValue (after.dropWhile isAsciiWhitespace)
      dsimp only
      split_ifs
      · dsimp only
        omega
      · dsimp only
        omega

/-- `mask_json_values`. -/
def maskJsonValues : Str → Str × Bool
  | [] => ([], false)
  | c :: s =>
    let step := jsonStep c s
    let rest := maskJsonValues step.2.1
    (step.1 ++ rest.1, step.2.2 || rest.2)
termination_by s => s.length
decreasing_by exact lt_succ_of_le (length_jsonStep c s)

/-! ## Multipart forms -/

/-- `str::find` of a text: where it occurs first. -/
def findStr (needle : Str) : Str → Option ℕ
  | [] => if needle = [] then some 0 else none
  | c :: s => if needle.isPrefixOf (c :: s) then some 0 else (findStr needle s).map (· + 1)

/-- `is_multipart`. -/
def isMultipart (text : Str) : Bool :=
  containsStr (toAsciiLowercase text) "content-disposition:".toList &&
    containsStr (toAsciiLowercase text) "form-data".toList

/-- `str::split_inclusive` at line feeds. -/
def splitInclusive : Str → List Str
  | [] => []
  | c :: s =>
    if c = '\n' then ['\n'] :: splitInclusive s
    else
      match splitInclusive s with
      | [] => [[c]]
      | line :: lines => (c :: line) :: lines

/-- Blanks and tabs. -/
def isBlank (c : Char) : Bool := c == ' ' || c == '\t'

/-- `boundary` of `mask_multipart_values`: the opening delimiter. -/
def openingDelimiter (text : Str) : Option Str :=
  (splitOnce '\n' text).bind fun (line, _) =>
    let line := (line.rdropWhile (· == '\r')).rdropWhile isBlank
    if "--".toList.isPrefixOf line && line.drop 2 != [] && byteLen (line.drop 2) ≤ 70 &&
        !"--".toList.isSuffixOf (line.drop 2) then some line
    else none

/-- A line without its end and the blanks in front of that. -/
def trimmedLine (line : Str) : Str := ((line.rdropWhile (· == '\n')).rdropWhile (· == '\r')).rdropWhile isBlank

/-- Whether a line is a delimiter of the form. -/
def isDelimiterLine (boundary line : Str) : Bool :=
  trimmedLine line == boundary || trimmedLine line == boundary ++ "--".toList

/-- How much of `value` stands before the first delimiter line and the end of the line in front of it; all of it where none
follows. -/
def valueEnd (boundary value : Str) : ℕ :=
  let before := (splitInclusive value).takeWhile (!isDelimiterLine boundary ·)
  if before.length = (splitInclusive value).length then value.length
  else
    let offset := before.flatten.length
    if offset = 0 then 0
    else if (value.take (offset - 1)).getLast? = some '\r' then offset - 2 else offset - 1

/-- The name in a quoted parameter, from behind its quotation mark, and the text behind the closing one. -/
def quotedName (escaped : Bool) : Str → Str × Str
  | [] => ([], [])
  | c :: s =>
    if escaped then (c :: (quotedName false s).1, (quotedName false s).2)
    else if c = '\\' then quotedName true s
    else if c = '"' then ([], s)
    else (c :: (quotedName false s).1, (quotedName false s).2)

theorem length_quotedName (escaped : Bool) (s : Str) : (quotedName escaped s).2.length ≤ s.length := by
  induction s generalizing escaped with
  | nil => exact le_refl _
  | cons c s ih =>
    unfold quotedName
    split_ifs
    · exact le_trans (ih false) (le_succ _)
    · exact le_trans (ih true) (le_succ _)
    · exact le_succ _
    · exact le_trans (ih false) (le_succ _)

/-- The value of a parameter, and what follows it. -/
def paramValue (value : Str) : Str × Str :=
  match value.dropWhile isWhitespace with
  | '"' :: quoted => quotedName false quoted
  | value => (trim (value.takeWhile (· ≠ ';')), value.dropWhile (· ≠ ';'))

theorem length_paramValue (value : Str) : (paramValue value).2.length ≤ value.length := by
  have htrim := (dropWhile_suffix (l := value) isWhitespace).length_le
  unfold paramValue
  split
  · next quoted heq =>
    rw [heq, length_cons] at htrim
    have hquoted := length_quotedName false quoted
    omega
  · exact le_trans (dropWhile_suffix _).length_le htrim

/-- The value of the first of some parameters, and what follows it. -/
def firstParam (params : Str) : Str × Str := paramValue ((params.dropWhile (· ≠ '=')).drop 1)

/-- The parameters behind the first. -/
def paramsTail (params : Str) : Str := (firstParam params).2.dropWhile isWhitespace

theorem length_paramsTail (params : Str) : (paramsTail params).length ≤ params.length - 1 := by
  have hvalue := (dropWhile_suffix (l := params) (· ≠ '=')).length_le
  have hparam := length_paramValue ((params.dropWhile (· ≠ '=')).drop 1)
  have htail := (dropWhile_suffix (l := (firstParam params).2) isWhitespace).length_le
  rw [length_drop] at hparam
  unfold paramsTail firstParam at *
  omega

/-- The loop of `part_name` over the parameters of a header. -/
def paramsName : Str → Option Str
  | [] => none
  | c :: s =>
    let params := (c :: s).dropWhile isWhitespace
    if '=' ∉ params then none
    else if eqIgnoreAsciiCase (trim (params.takeWhile (· ≠ '='))) "name".toList then some (firstParam params).1
    else if (paramsTail params).head? = some ';' then paramsName ((paramsTail params).drop 1)
    else none
termination_by params => params.length
decreasing_by
  have hparams := (List.dropWhile_suffix (l := c :: s) isWhitespace).length_le
  have htail := length_paramsTail ((c :: s).dropWhile isWhitespace)
  rw [List.length_cons] at hparams
  rw [List.length_drop, List.length_cons]
  omega

/-- `part_name`. -/
def partName (line : Str) : Option Str := (splitOnce ';' line).bind fun (_, params) => paramsName params

/-- Where the value of a part begins: behind its first empty line. -/
def valueStart (part : Str) : Option ℕ :=
  match findStr "\r\n\r\n".toList part, findStr "\n\n".toList part with
  | some a, some b => some (min (a + 4) (b + 2))
  | some a, none => some (a + 4)
  | none, some b => some (b + 2)
  | none, none => none

/-- What the scan does at a `Content-Disposition` header: what it copies and masks, how much of the text it has then gone
past, and whether it masks; nothing where the scan ends. -/
def partStep (boundary : Option Str) (part : Str) : Option (Str × ℕ × Bool) :=
  let line := part.takeWhile (· ≠ '\n')
  match partName line with
  | none => some (line, line.length, false)
  | some name =>
    match valueStart part with
    | none => none
    | some start =>
      let value := part.drop start
      let length := match boundary with
        | some boundary => valueEnd boundary value
        | none => value.length
      let next := if boundary = none ∧ isSensitiveKey name = false then start else start + length
      if isSensitiveKey name = true ∧ 0 < length then some (part.take start ++ "***".toList, next, true)
      else some (part.take next, next, false)

/-- The loop of `mask_multipart_values`; `fuel` is at least the length of the text. -/
def maskParts (boundary : Option Str) : ℕ → Str → Str × Bool
  | 0, text => (text, false)
  | fuel + 1, text =>
    match findStr "content-disposition:".toList (toAsciiLowercase text) with
    | none => (text, false)
    | some header =>
      match partStep boundary (text.drop header) with
      | none => (text, false)
      | some (shown, length, hit) =>
        let rest := maskParts boundary fuel (text.drop (header + length))
        (text.take header ++ shown ++ rest.1, hit || rest.2)

/-- `mask_multipart_values`. -/
def maskMultipartValues (text : Str) : Str × Bool := maskParts (openingDelimiter text) text.length text

/-! ## Forms -/

/-- What is shown of a pair, and whether its value is masked. -/
def maskPair (pair : Str) : Str × Bool :=
  match splitOnce '=' pair with
  | some (k, _) => if isSensitiveKey (trim k) then (k ++ "=***".toList, true) else (pair, false)
  | none => (pair, false)

/-- `mask_form_values`. -/
def maskFormValues (text : Str) : Str × Bool :=
  let trimmed := text.dropWhile isWhitespace
  if trimmed.head? = some '\x7b' ∨ trimmed.head? = some '[' ∨ '=' ∉ text then (text, false)
  else
    let parts := (text.splitOn '&').map maskPair
    (['&'].intercalate (parts.map Prod.fst), parts.any Prod.snd)

/-- The masks behind that of JSON. -/
def maskPairs (text : Str) : Str × Bool := if isMultipart text then maskMultipartValues text else maskFormValues text

/-- `mask_secrets`. -/
def maskSecrets (text : Str) : Str × Bool :=
  let json := maskJsonValues text
  let pairs := maskPairs json.1
  (pairs.1, json.2 || pairs.2)

end Onecli.Summary.Redact
