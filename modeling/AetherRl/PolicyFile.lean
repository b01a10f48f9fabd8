import AetherRl.Http
import AetherRl.RepoPolicies
/-!
# PolicyFile — the coordinator's endpoint for the files of a policy

`policy_file` of `coordinator/api.py`, from the opened file on: the whole file is checked, the range is parsed, and the
bytes from its start are streamed.
-/
namespace Aether
namespace PolicyFile

open Http (Response parseInt)

inductive Error
  | api (status : Nat) (code message contentRange : String)
  | artifactCorruption (message : String)
deriving DecidableEq

/-- `text.partition("-")`: what stands before, whether there is a dash, and what stands after. -/
def partitionDash (cs : List Char) : List Char × Bool × List Char :=
  match cs.dropWhile (· ≠ '-') with
  | [] => (cs, false, [])
  | _ :: rest => (cs.takeWhile (· ≠ '-'), true, rest)

/-- The range the two texts around the dash ask for, or nothing where `ValueError` is raised; `readInt` is `int`. -/
def rangeOf (readInt : List Char → Option Int) (size : Nat) (startText endText : List Char) : Option (Int × Int) :=
  if startText ≠ [] then do
    let start ← readInt startText
    let stop ← if endText ≠ [] then readInt endText else some ((size : Int) - 1)
    return (start, stop)
  else do
    let suffix ← readInt endText
    if suffix ≤ 0 then none
    return (max 0 (size - suffix), (size : Int) - 1)

def invalidRange (size : Nat) (message : String) : Error :=
  .api 416 "invalid_range" message ("bytes */" ++ toString size)

/-- `_parse_range`, for a reading of numerals. -/
def parseRangeWith (readInt : List Char → Option Int) (header : Option String) (size : Nat) : Except Error (Int × Int) :=
  match header with
  | none => .ok (0, (size : Int) - 1)
  | some header =>
    if ¬ "bytes=".toList <+: header.toList ∨ ',' ∈ header.toList then
      .error (invalidRange size "only one byte range is supported")
    else
      match partitionDash (header.toList.drop "bytes=".length) with
      | (_, false, _) => .error (invalidRange size "byte range is malformed")
      | (startText, true, endText) =>
        match rangeOf readInt size startText endText with
        | none => .error (invalidRange size "byte range is malformed")
        | some (start, stop) =>
          if start < 0 ∨ stop < start ∨ (size : Int) ≤ start then
            .error (invalidRange size "byte range is unsatisfiable")
          else .ok (start, min stop (size - 1))

/-- `_parse_range`, of a header of Latin-1 characters. -/
def parseRange (header : Option String) (size : Nat) : Except Error (Int × Int) := parseRangeWith parseInt header size

/-- `_file_chunks`, of what is left of the file. -/
def fileChunks (file : Bytes) (remaining : Nat) : List Bytes :=
  if file.take (min (1024 * 1024) remaining) = [] then []
  else file.take (min (1024 * 1024) remaining) ::
    fileChunks (file.drop (min (1024 * 1024) remaining)) (remaining - min (1024 * 1024) remaining)
termination_by remaining
decreasing_by
  rename_i h
  rcases Nat.eq_zero_or_pos remaining with hr | hr
  · exact absurd (by rw [hr, Nat.min_zero, List.take_zero]) h
  · omega

def quotedEtag (digest : Digest) : String := "\"" ++ digest ++ "\""

/-- `_etag_matches`. -/
def etagMatches (header : Option String) (current : String) : Bool :=
  header.any fun header => (header.splitOn ",").any fun candidate =>
    let text := String.ofList (Http.strip candidate.toList)
    text == "*" || removePrefix "W/" text == removePrefix "W/" current

variable (sha256 : Bytes → Digest)

/-- `policy_file` with the opened file, its size and its digest. -/
def policyFile (file : Bytes) (size : Nat) (digest : Digest) (name : String) (range ifNoneMatch : Option String) :
    Except Error Response := do
  if sha256 file ≠ digest then
    throw (.artifactCorruption "published policy file digest does not match its manifest")
  let (start, stop) ← parseRange range size
  let contentLength := (stop - start + 1).toNat
  let headers := [("ETag", quotedEtag digest), ("Cache-Control", "private, max-age=31536000, immutable"),
    ("Accept-Ranges", "bytes"), ("Content-Length", toString contentLength)]
  if etagMatches ifNoneMatch (quotedEtag digest) then return ⟨304, headers, [], .complete⟩
  let mediaType := if name = "adapter_config.json" then "application/json" else "application/octet-stream"
  let contentRange := if range.isSome then
    [("Content-Range", "bytes " ++ toString start ++ "-" ++ toString stop ++ "/" ++ toString size)] else []
  return ⟨if range.isSome then 206 else 200, headers ++ contentRange ++ [("content-type", mediaType)],
    fileChunks (file.drop start.toNat) contentLength, .complete⟩

/-! ## The range of a resumed download -/

/-- The `Range` header the worker sends. -/
def rangeHeader (offset : Nat) : Option String :=
  if offset = 0 then none else some ("bytes=" ++ toString offset ++ "-")

theorem partitionDash_of_not_mem {cs : List Char} (h : '-' ∉ cs) (rest : List Char) :
    partitionDash (cs ++ '-' :: rest) = (cs, true, rest) := by
  have hall : ∀ c ∈ cs, decide (c ≠ '-') = true := fun c hc => decide_eq_true fun hd => h (hd ▸ hc)
  have hdrop : (cs ++ '-' :: rest).dropWhile (fun c => decide (c ≠ '-')) = '-' :: rest := by
    rw [List.dropWhile_append_of_pos hall]
    rfl
  have htake : (cs ++ '-' :: rest).takeWhile (fun c => decide (c ≠ '-')) = cs := by
    rw [List.takeWhile_append_of_pos hall]
    exact List.append_nil cs
  rw [partitionDash, hdrop, htake]

/-- **Every offset the worker asks for is parsed as the rest of the file.** -/
theorem parseRange_rangeHeader {offset size : Nat} (h : offset < size) :
    parseRange (rangeHeader offset) size = .ok ((offset : Int), (size : Int) - 1) := by
  unfold rangeHeader
  split
  · rename_i h0
    subst h0
    rfl
  · have hdigits : ∀ c ∈ (toString offset).toList, c.isDigit = true := fun c hc => Numeral.isDigit_toString hc
    have hdash : '-' ∉ (toString offset).toList := fun hc => by cases hdigits '-' hc
    have hcomma : ',' ∉ (toString offset).toList := fun hc => by cases hdigits ',' hc
    have hne : (toString offset).toList ≠ [] := by
      rw [Numeral.toList_toString]
      exact Nat.toDigits_ne_nil
    have hlist : ("bytes=" ++ toString offset ++ "-").toList = "bytes=".toList ++ ((toString offset).toList ++ ['-']) := by
      rw [String.toList_append, String.toList_append, List.append_assoc]
      rfl
    have hrange : rangeOf parseInt size (toString offset).toList [] = some ((offset : Int), (size : Int) - 1) := by
      rw [rangeOf, if_pos hne, Http.parseInt_toString]
      rfl
    rw [parseRange, parseRangeWith]
    simp only [hlist]
    rw [if_neg, show "bytes=".length = "bytes=".toList.length from rfl, List.drop_left, partitionDash_of_not_mem hdash]
    · simp only [hrange]
      rw [if_neg (by omega)]
      rw [min_self]
    · rintro (hp | hc)
      · exact hp (List.prefix_append _ _)
      · rcases List.mem_append.1 hc with hc | hc
        · revert hc
          decide
        · rcases List.mem_append.1 hc with hc | hc
          · exact hcomma hc
          · revert hc
            decide

/-- **The chunks are the file's bytes**, as many as are asked for. -/
theorem flatten_fileChunks (file : Bytes) (remaining : Nat) :
    (fileChunks file remaining).flatten = file.take remaining := by
  fun_induction fileChunks file remaining with
  | case1 file remaining h =>
    rw [List.take_eq_nil_iff] at h
    rcases h with h | h
    · have hr : remaining = 0 := by omega
      rw [hr, List.take_zero, List.flatten_nil]
    · rw [h, List.take_nil, List.flatten_nil]
  | case2 file remaining h ih =>
    rw [List.flatten_cons, ih]
    have hsplit : remaining = min (1024 * 1024) remaining + (remaining - min (1024 * 1024) remaining) := by omega
    conv_rhs => rw [hsplit, List.take_add]

end PolicyFile
end Aether
