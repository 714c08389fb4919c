import Onecli.Inject.Rules

/-!
# The injected query parameter

`apply_set_param` compares names as they are written and replaces the first that is the same; a reader compares them
decoded, and takes the first or the last. What the reader decodes with is a parameter.
-/

namespace Onecli.Inject

open CodeUnits List Option
open Gateway (Str)

/-- What comes before a character, or everything. -/
def upTo (d : Char) (s : Str) : Str := ((splitOnce d s).map Prod.fst).getD s

/-- The path and the query of a request path. -/
def pathAndQuery (requestPath : Str) : Str := requestPath.takeWhile (· ≠ '#')

/-- The fragment, with its `#`. -/
def fragmentOf (requestPath : Str) : Str := requestPath.dropWhile (· ≠ '#')

/-- The path before `?`. -/
def pathOf (requestPath : Str) : Str := upTo '?' (pathAndQuery requestPath)

/-- The segments of the query. -/
def querySegments (requestPath : Str) : List Str :=
  match splitOnce '?' (pathAndQuery requestPath) with
  | none => []
  | some (_, query) => if query.isEmpty then [] else query.splitOn '&'

section Reader

variable (decode : Str → Str) (name : Str)

/-- The segment carries the parameter. -/
def carries (segment : Str) : Bool := decode (upTo '=' segment) = name

/-- The values that a form-urlencoded reader has for the parameter, in order; it skips empty segments. -/
def valuesOf (segments : List Str) : List Str :=
  (segments.filter fun segment => segment ≠ [] ∧ carries decode name segment).map fun segment =>
    decode (((splitOnce '=' segment).map Prod.snd).getD [])

end Reader

/-- The segments before the one that is replaced; all, where none is. -/
def beforeOwn (encodedName : Str) : List Str → List Str
  | [] => []
  | segment :: segments => if upTo '=' segment = encodedName then [] else segment :: beforeOwn encodedName segments

/-- The segments after the one that is replaced. -/
def afterOwn (encodedName : Str) : List Str → List Str
  | [] => []
  | segment :: segments => if upTo '=' segment = encodedName then segments else afterOwn encodedName segments

/-- What the reader decodes of an appended pair is the name and the value, and neither part holds a delimiter. -/
structure Encodes (crates : Crates) (decode : Str → Str) (name value encodedName encodedValue : Str) : Prop where
  pair : crates.appendPair name value = encodedName ++ '=' :: encodedValue
  name : decode encodedName = name
  value : decode encodedValue = value
  noEquals : '=' ∉ encodedName
  noDelimiter : ∀ d ∈ ['&', '#'], d ∉ encodedName ++ '=' :: encodedValue

/-- What is promised: nothing else changes, and first and last reader have the value. -/
structure Injects (decode : Str → Str) (name value requestPath out : Str) : Prop where
  path : pathOf out = pathOf requestPath
  fragment : fragmentOf out = fragmentOf requestPath
  others : (querySegments out).filter (!carries decode name ·) = (querySegments requestPath).filter (!carries decode name ·)
  first : (valuesOf decode name (querySegments out)).head? = some value
  last : (valuesOf decode name (querySegments out)).getLast? = some value

variable {crates : Crates} {decode : Str → Str} {name value encodedName encodedValue : Str}

theorem replaceSegment_getD (encodedName pair : Str) (segments : List Str) :
    (replaceSegment encodedName pair segments).getD (segments ++ [pair]) =
      beforeOwn encodedName segments ++ pair :: afterOwn encodedName segments := by
  induction segments with
  | nil => rfl
  | cons segment segments ih =>
    by_cases hname : upTo '=' segment = encodedName
    · rw [beforeOwn, afterOwn, if_pos hname, if_pos hname]
      exact congrArg (Option.getD · _) (if_pos hname)
    · have hskip : replaceSegment encodedName pair (segment :: segments) =
          (replaceSegment encodedName pair segments).map (segment :: ·) := if_neg hname
      rw [beforeOwn, afterOwn, if_neg hname, if_neg hname, hskip, cons_append, cons_append, ← ih]
      cases replaceSegment encodedName pair segments <;> rfl

/-- The parameter is set in its first place. -/
theorem applySetParam_eq (h : Encodes crates decode name value encodedName encodedValue) (path : Str) :
    applySetParam crates path name value = some (pathOf path ++ '?' :: ['&'].intercalate
      (beforeOwn encodedName (querySegments path) ++ (encodedName ++ '=' :: encodedValue) ::
        afterOwn encodedName (querySegments path)) ++ fragmentOf path) := by
  have hname : splitOnce '=' (encodedName ++ '=' :: encodedValue) = some (encodedName, encodedValue) :=
    (splitOnce_eq_some_iff '=' _ _ _).2 ⟨rfl, h.noEquals⟩
  have hspan : path.span (· ≠ '#') = (pathAndQuery path, fragmentOf path) := span_eq_takeWhile_dropWhile _ _
  simp only [applySetParam, h.pair, hname, hspan, bind, Option.bind, pure, pathOf, upTo, querySegments]
  cases hsplit : splitOnce '?' (pathAndQuery path) with
  | none => simp [beforeOwn, afterOwn]
  | some parts =>
    obtain ⟨path, query⟩ := parts
    have hjoin := ((splitOnce_eq_some_iff '?' _ _ _).1 hsplit).1
    dsimp only [map_some, getD_some]
    split
    · rename_i hempty
      rw [List.isEmpty_iff] at hempty
      simp [hjoin, hempty, beforeOwn, afterOwn]
    · rw [replaceSegment_getD]

theorem mem_intercalate {c d : Char} {segments : List Str} (h : c ∈ [d].intercalate segments) :
    c = d ∨ ∃ segment ∈ segments, c ∈ segment := by
  induction segments with
  | nil => cases h
  | cons segment segments ih =>
    cases segments with
    | nil => exact .inr ⟨segment, mem_cons_self, by rwa [intercalate_singleton] at h⟩
    | cons =>
      rw [intercalate_cons_cons, mem_append, mem_append, mem_singleton] at h
      obtain (h | h) | h := h
      · exact .inr ⟨segment, mem_cons_self, h⟩
      · exact .inl h
      · exact (ih h).imp_right fun ⟨s, hs, hc⟩ => ⟨s, mem_cons_of_mem _ hs, hc⟩

/-- Joined segments are read back. -/
theorem read_joined {front : Str} {segments : List Str} (path : Str) (hfront : ∀ d ∈ ['?', '#'], d ∉ front)
    (hsegments : ∀ segment ∈ segments, ∀ d ∈ ['&', '#'], d ∉ segment) (hne : ['&'].intercalate segments ≠ []) :
    pathOf (front ++ '?' :: ['&'].intercalate segments ++ fragmentOf path) = front ∧
      fragmentOf (front ++ '?' :: ['&'].intercalate segments ++ fragmentOf path) = fragmentOf path ∧
      querySegments (front ++ '?' :: ['&'].intercalate segments ++ fragmentOf path) = segments := by
  have hfree : ∀ c ∈ front ++ '?' :: ['&'].intercalate segments, decide (c ≠ '#') = true := by
    intro c hc
    refine decide_eq_true ?_
    rintro rfl
    rw [mem_append, mem_cons] at hc
    obtain hc | hc | hc := hc
    · exact hfront '#' (by decide) hc
    · cases hc
    · obtain hc | ⟨segment, hmem, hc⟩ := mem_intercalate hc
      · cases hc
      · exact hsegments segment hmem '#' (by decide) hc
  have hfragment : pathAndQuery (fragmentOf path) = [] ∧ fragmentOf (fragmentOf path) = fragmentOf path := by
    unfold pathAndQuery fragmentOf
    induction path with
    | nil => exact ⟨rfl, rfl⟩
    | cons c s ih =>
      rw [dropWhile_cons]
      split
      · exact ih
      · rename_i hc
        exact ⟨takeWhile_cons_of_neg hc, dropWhile_cons_of_neg hc⟩
  have hpath : pathAndQuery (front ++ '?' :: ['&'].intercalate segments ++ fragmentOf path) =
      front ++ '?' :: ['&'].intercalate segments := by
    rw [pathAndQuery, takeWhile_append_of_pos hfree]
    exact (congrArg _ hfragment.1).trans (append_nil _)
  have hsplit : splitOnce '?' (front ++ '?' :: ['&'].intercalate segments) =
      some (front, ['&'].intercalate segments) := (splitOnce_eq_some_iff '?' _ _ _).2 ⟨rfl, hfront '?' (by decide)⟩
  refine ⟨?_, (dropWhile_append_of_pos hfree).trans hfragment.2, ?_⟩
  · rw [pathOf, hpath, upTo, hsplit]
    rfl
  · simp only [querySegments, hpath, hsplit, List.isEmpty_iff, if_neg hne]
    refine splitOn_intercalate '&' (fun segment hmem => hsegments segment hmem '&' (by decide)) ?_
    rintro rfl
    exact hne rfl

/-- Segments have no delimiter. -/
theorem noDelimiter (path : Str) : (∀ d ∈ ['?', '#'], d ∉ pathOf path) ∧
    ∀ segment ∈ querySegments path, ∀ d ∈ ['&', '#'], d ∉ segment := by
  have hfree : '#' ∉ pathAndQuery path := fun h => absurd (mem_takeWhile_imp h) (by decide)
  unfold pathOf upTo querySegments
  cases hsplit : splitOnce '?' (pathAndQuery path) with
  | none => exact ⟨by simpa using ⟨(splitOnce_eq_none_iff _ _).1 hsplit, hfree⟩, nofun⟩
  | some parts =>
    obtain ⟨path, query⟩ := parts
    obtain ⟨hjoin, hpath⟩ := (splitOnce_eq_some_iff '?' _ _ _).1 hsplit
    rw [hjoin, mem_append, mem_cons, not_or, not_or] at hfree
    refine ⟨by simpa using ⟨hpath, hfree.1⟩, ?_⟩
    dsimp only
    split
    · exact nofun
    · intro segment hmem
      obtain ⟨hsub, hamp⟩ := mem_splitOn hmem
      simpa using ⟨hamp, fun h => hfree.2.2 (hsub h)⟩

/-- The parameter's own segments lie between the others. -/
theorem own_split (h : Encodes crates decode name value encodedName encodedValue) (segments : List Str) :
    ∃ own, segments = beforeOwn encodedName segments ++ own ++ afterOwn encodedName segments ∧
      ∀ segment ∈ own, carries decode name segment = true := by
  induction segments with
  | nil => exact ⟨[], rfl, nofun⟩
  | cons segment segments ih =>
    by_cases hname : upTo '=' segment = encodedName
    · refine ⟨[segment], by rw [beforeOwn, afterOwn, if_pos hname, if_pos hname]; rfl, fun own hown => ?_⟩
      rw [mem_singleton.1 hown, carries, hname, h.name]
      exact decide_eq_true rfl
    · obtain ⟨own, hown, hcarries⟩ := ih
      refine ⟨own, ?_, hcarries⟩
      rw [beforeOwn, afterOwn, if_neg hname, if_neg hname, cons_append, cons_append, ← hown]

/-- The injection does what is promised exactly where the first segment of the name before the one that is replaced, and
the last one after it, already carry the value. -/
theorem injects_iff (h : Encodes crates decode name value encodedName encodedValue) (requestPath : Str) :
    (∃ out ∈ applySetParam crates requestPath name value, Injects decode name value requestPath out) ↔
      (∀ v ∈ (valuesOf decode name (beforeOwn encodedName (querySegments requestPath))).head?, v = value) ∧
        ∀ v ∈ (valuesOf decode name (afterOwn encodedName (querySegments requestPath))).getLast?, v = value := by
  obtain ⟨hpath, hsegments⟩ := noDelimiter requestPath
  obtain ⟨own, hown, hcarries⟩ := own_split h (querySegments requestPath)
  have hpair : carries decode name (encodedName ++ '=' :: encodedValue) = true ∧
      ((splitOnce '=' (encodedName ++ '=' :: encodedValue)).map Prod.snd).getD [] = encodedValue := by
    have hsplit := (splitOnce_eq_some_iff '=' _ encodedName encodedValue).2 ⟨rfl, h.noEquals⟩
    simp [carries, upTo, hsplit, h.name]
  have heq := applySetParam_eq h requestPath
  generalize hbefore : beforeOwn encodedName (querySegments requestPath) = before at *
  generalize hafter : afterOwn encodedName (querySegments requestPath) = after at *
  have hall : ∀ segment ∈ before ++ (encodedName ++ '=' :: encodedValue) :: after, ∀ d ∈ ['&', '#'], d ∉ segment := by
    intro segment hmem
    rw [List.mem_append, List.mem_cons] at hmem
    obtain hmem | rfl | hmem := hmem
    · exact hsegments segment (hown ▸ List.mem_append_left _ (List.mem_append_left _ hmem))
    · exact h.noDelimiter
    · exact hsegments segment (hown ▸ List.mem_append_right _ hmem)
  have hne : ['&'].intercalate (before ++ (encodedName ++ '=' :: encodedValue) :: after) ≠ [] := by
    intro hnil
    have hback := List.splitOn_intercalate '&' (fun s hs => hall s hs '&' (by decide)) (by simp)
    rw [hnil, List.splitOn_nil] at hback
    have hmem : encodedName ++ '=' :: encodedValue ∈ [([] : Str)] := hback ▸ by simp
    exact absurd (List.mem_singleton.1 hmem) (by simp)
  obtain ⟨hp, hf, hq⟩ := read_joined requestPath hpath hall hne
  have hvalues : valuesOf decode name (before ++ (encodedName ++ '=' :: encodedValue) :: after) =
      valuesOf decode name before ++ value :: valuesOf decode name after := by
    simp [valuesOf, hpair, h.value]
  have hfilter : (before ++ (encodedName ++ '=' :: encodedValue) :: after).filter (!carries decode name ·) =
      (querySegments requestPath).filter (!carries decode name ·) := by
    have hnone : own.filter (!carries decode name ·) = [] := by simpa using hcarries
    rw [hown, List.filter_append, List.filter_append, List.filter_append, hnone, List.filter_cons_of_neg (by simp [hpair]),
      List.append_nil]
  have hpromise (out : Str) : out ∈ applySetParam crates requestPath name value ∧ Injects decode name value requestPath out ↔
      out ∈ applySetParam crates requestPath name value ∧
        (valuesOf decode name before ++ value :: valuesOf decode name after).head? = some value ∧
          (valuesOf decode name before ++ value :: valuesOf decode name after).getLast? = some value := by
    refine and_congr_right fun hout => ?_
    rw [heq] at hout
    cases hout
    constructor
    · intro hin
      exact ⟨hvalues ▸ hq ▸ hin.first, hvalues ▸ hq ▸ hin.last⟩
    · rintro ⟨hfirst, hlast⟩
      exact ⟨hp, hf, by rw [hq, hfilter], by rw [hq, hvalues, hfirst], by rw [hq, hvalues, hlast]⟩
  cases hb : valuesOf decode name before <;> cases ha : (valuesOf decode name after).getLast? <;>
    simp_all [List.getLast?_cons]

/-- A pair of plain texts. -/
def pairCrates : Crates := ⟨some, some, fun name value => name ++ '=' :: value, fun _ => none⟩

/-- The pair encodes itself. -/
theorem encodes_pair : Encodes pairCrates id "key".toList "s".toList "key".toList "s".toList := by
  constructor <;> first | rfl | decide

/-- A request that carries the parameter once. -/
theorem injects_iff_once :
    ∃ out ∈ applySetParam pairCrates "/v1?key=agent&x".toList "key".toList "s".toList,
      Injects id "key".toList "s".toList "/v1?key=agent&x".toList out :=
  (injects_iff encodes_pair "/v1?key=agent&x".toList).2 (by decide)

/-- A last reader has the agent's second value. -/
theorem not_injects_twice : ¬ ∀ (crates : Crates) (decode : Str → Str) (name value encodedName encodedValue : Str),
    Encodes crates decode name value encodedName encodedValue → ∀ requestPath : Str,
      ∃ out ∈ applySetParam crates requestPath name value, Injects decode name value requestPath out := by
  intro h
  obtain ⟨out, hout, hin⟩ := h _ _ _ _ _ _ encodes_pair "/v1?key=agent&key=agent".toList
  cases hout
  exact absurd hin.last (by decide)

end Onecli.Inject
