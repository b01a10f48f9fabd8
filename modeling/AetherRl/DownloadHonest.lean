import AetherRl.DownloadSound
/-!
# DownloadHonest — a download from an honest coordinator

The request for the rest of a file is parsed as the rest, and what the endpoint answers passes the client's validation;
so a partial file that begins as the file does is completed to it.
-/
namespace Aether
namespace Download

open Http (Response Ending lower)
open PolicyFile (policyFile rangeHeader fileChunks quotedEtag)

variable {sha256 : Bytes → Digest} {name : String} {file : Bytes} {offset : Nat}

/-! ## The response -/

theorem lower_names : lower "ETag" = "etag" ∧ lower "Cache-Control" = "cache-control" ∧
    lower "Accept-Ranges" = "accept-ranges" ∧ lower "Content-Length" = "content-length" ∧
    lower "Content-Range" = "content-range" ∧ lower "content-type" = "content-type" := by
  decide +kernel

/-- The range a response to the worker's request names. -/
def contentRange (offset sizeBytes : Nat) : Option String :=
  if offset = 0 then none else
    some ("bytes " ++ toString offset ++ "-" ++ toString ((sizeBytes : Int) - 1) ++ "/" ++ toString sizeBytes)

def mediaType (name : String) : String :=
  if name = "adapter_config.json" then "application/json" else "application/octet-stream"

/-- What the endpoint answers to a request for the rest of the file. -/
def servedFrom (sha256 : Bytes → Digest) (name : String) (file : Bytes) (offset : Nat) : Response :=
  ⟨expectedStatus offset,
    [("ETag", quotedEtag (sha256 file)), ("Cache-Control", "private, max-age=31536000, immutable"),
      ("Accept-Ranges", "bytes"), ("Content-Length", toString (file.length - offset))] ++
      ((contentRange offset file.length).map fun range => ("Content-Range", range)).toList ++
      [("content-type", mediaType name)],
    fileChunks (file.drop offset) (file.length - offset), .complete⟩

/-- **The endpoint serves the rest of the file** from every offset the worker can ask for. -/
theorem policyFile_rangeHeader (h : offset < file.length) :
    policyFile sha256 file file.length (sha256 file) name (rangeHeader offset) none =
      .ok (servedFrom sha256 name file offset) := by
  have hlength : ((file.length : Int) - 1 - (offset : Int) + 1).toNat = file.length - offset := by omega
  have hstart : ((offset : Int)).toNat = offset := rfl
  have hno : PolicyFile.etagMatches none (quotedEtag (sha256 file)) = false := rfl
  unfold policyFile
  rw [if_neg (not_not.2 rfl), PolicyFile.parseRange_rangeHeader h]
  simp only [bind, Except.bind, pure, Except.pure, hlength, hstart, hno, Bool.false_eq_true, if_false]
  rw [servedFrom, contentRange, expectedStatus, mediaType, rangeHeader]
  by_cases h0 : offset = 0
  · simp only [if_pos h0, Option.isSome_none, Bool.false_eq_true, if_false, Option.map_none, Option.toList_none]
  · simp only [if_neg h0, Option.isSome_some, if_true, Option.map_some, Option.toList_some]
    rfl

theorem header_servedFrom (sha256 : Bytes → Digest) (name : String) (file : Bytes) (offset : Nat) :
    (servedFrom sha256 name file offset).header "content-encoding" = none ∧
    (servedFrom sha256 name file offset).header "content-type" = some (mediaType name) ∧
    (servedFrom sha256 name file offset).header "etag" = some (quotedEtag (sha256 file)) ∧
    (servedFrom sha256 name file offset).header "content-length" = some (toString (file.length - offset)) ∧
    (servedFrom sha256 name file offset).header "content-range" = contentRange offset file.length := by
  obtain ⟨h1, h2, h3, h4, h5, h6⟩ := lower_names
  unfold servedFrom
  cases contentRange offset file.length <;> simp [Response.header, h1, h2, h3, h4, h5, h6]

theorem lower_mediaType (name : String) : lower (Http.beforeChar ';' (mediaType name)) = mediaType name := by
  unfold mediaType
  split <;> decide +kernel

/-- **The client accepts what the endpoint serves.** -/
theorem validate_servedFrom (h : offset < file.length) (requireDigestEtag : Bool) :
    validateResponse (servedFrom sha256 name file offset) name file.length (sha256 file) offset requireDigestEtag =
      .ok () := by
  obtain ⟨hencoding, htype, hetag, hlength, hrange⟩ := header_servedFrom sha256 name file offset
  have hidentity : lower "identity" = "identity" := by decide +kernel
  have hsize : ((file.length - offset : Nat) : Int) = (file.length : Int) - offset := by omega
  have hmedia : (if name = "adapter_config.json" then "application/json" else "application/octet-stream") =
      mediaType name := rfl
  have hcontent : (if offset = 0 then none else some ("bytes " ++ toString offset ++ "-" ++
      toString ((file.length : Int) - 1) ++ "/" ++ toString file.length)) = contentRange offset file.length := rfl
  unfold validateResponse
  simp only [hencoding, htype, hetag, hlength, hrange, hmedia, hcontent, Option.getD_none, Option.getD_some, hidentity,
    lower_mediaType, Http.parseInt_toString, hsize, ne_eq, not_true_eq_false, if_false, and_false]
  rfl

/-! ## The download -/

/-- **Chunks that fit are all written.** -/
theorem receive_complete {sizeBytes : Nat} : ∀ (chunks : List Bytes) (d : Disk) (hashed : Bytes),
    d.part.getD [] = hashed → hashed.length + chunks.flatten.length ≤ sizeBytes →
      ∃ t, receive sizeBytes .complete chunks d hashed.length hashed =
          (t, .ok ((hashed ++ chunks.flatten).length, hashed ++ chunks.flatten)) ∧
        t.part.getD [] = hashed ++ chunks.flatten ∧ t.installed = d.installed
  | [], d, hashed, hd, _ => by
    rw [List.flatten_nil, List.append_nil]
    exact ⟨d, rfl, hd, rfl⟩
  | chunk :: chunks, d, hashed, hd, hfits => by
    rw [List.flatten_cons, List.length_append] at hfits
    have hpart : (d.append chunk).part.getD [] = hashed ++ chunk := by rw [part_append, hd]
    have hrest : (hashed ++ chunk).length + chunks.flatten.length ≤ sizeBytes := by
      rw [List.length_append]
      omega
    obtain ⟨t, ht, hpartt, hinst⟩ := receive_complete chunks (d.append chunk) (hashed ++ chunk) hpart hrest
    rw [List.append_assoc, ← List.flatten_cons, List.length_append] at ht
    rw [List.append_assoc, ← List.flatten_cons] at hpartt
    refine ⟨t, ?_, hpartt, hinst⟩
    rw [receive, if_neg (by omega)]
    exact ht

/-- **A true prefix and the rest the endpoint serves** make up the file. -/
theorem flatten_servedFrom (sha256 : Bytes → Digest) (name : String) (file : Bytes) (offset : Nat) :
    file.take offset ++ (servedFrom sha256 name file offset).chunks.flatten = file := by
  have hlength : (file.drop offset).length ≤ file.length - offset := by rw [List.length_drop]
  rw [servedFrom, PolicyFile.flatten_fileChunks, List.take_of_length_le hlength, List.take_append_drop]

/-- **An attempt at an honest coordinator completes the partial file.** -/
theorem download_servedFrom (sha256 : Bytes → Digest) (name : String) {d : Disk} {hashed : Bytes} (hd : d.part.getD [] = hashed) (hp : hashed <+: file)
    (hlt : hashed.length < file.length) (requireDigestEtag : Bool) :
    ∃ t, download sha256 name file.length (sha256 file) d hashed.length hashed
        (.ok (servedFrom sha256 name file hashed.length, requireDigestEtag)) = (t, .ok ()) ∧
      t.part.getD [] = file ∧ t.installed = d.installed := by
  have hflatten := flatten_servedFrom sha256 name file hashed.length
  rw [← List.prefix_iff_eq_take.1 hp] at hflatten
  have hbegin : (if hashed.length = 0 then d.write [] else d).part.getD [] = hashed := by
    split
    · rename_i h0
      rw [List.length_eq_zero_iff.1 h0]
      rfl
    · exact hd
  have hsame : (if hashed.length = 0 then d.write [] else d).installed = d.installed := by
    split <;> rfl
  obtain ⟨t, ht, hpart, hinst⟩ := receive_complete
    (servedFrom sha256 name file hashed.length).chunks _ hashed hbegin (by
      rw [← List.length_append, hflatten])
  rw [hflatten] at ht hpart
  have hending : (servedFrom sha256 name file hashed.length).ending = .complete := rfl
  refine ⟨t, ?_, hpart, hinst.trans hsame⟩
  unfold download
  simp only [validate_servedFrom hlt, hending, ht, ne_eq, not_true_eq_false, or_self, if_false]

/-- **An attempt that is answered as the endpoint answers leaves the whole file**, from any true prefix of it. -/
theorem attempt_honest (sha256 : Bytes → Digest) (name : String) {source : Nat → Except Error (Response × Bool)} {d : Disk} (hp : d.part.getD [] <+: file)
    (hsource : ∀ offset < file.length, ∃ etag, source offset = .ok (servedFrom sha256 name file offset, etag)) :
    ∃ t finished, attempt sha256 name file.length (sha256 file) source d = (t, .ok finished) ∧
      t.part.getD [] = file := by
  unfold attempt
  by_cases hfull : (d.part.getD []).length = file.length
  · have heq : d.part.getD [] = file := hp.eq_of_length hfull
    refine ⟨d, true, ?_, heq⟩
    simp only [heq, and_self, if_true]
  · have hlt : (d.part.getD []).length < file.length := Nat.lt_of_le_of_ne hp.length_le hfull
    simp only [hfull, false_and, if_false, false_or]
    by_cases h0 : (d.part.getD []).length = 0
    · have hpos : 0 < file.length := by omega
      obtain ⟨etag, hanswer⟩ := hsource 0 hpos
      have hnil : ([] : Bytes) <+: file := List.nil_prefix
      have hempty : d.unlink.part.getD [] = [] := rfl
      obtain ⟨t, ht, hpart, -⟩ := download_servedFrom sha256 name hempty hnil hpos etag
      rw [List.length_nil] at ht
      refine ⟨t, false, ?_, hpart⟩
      simp only [h0, if_true, List.length_nil, hanswer, ht]
    · obtain ⟨etag, hanswer⟩ := hsource _ hlt
      obtain ⟨t, ht, hpart, -⟩ := download_servedFrom sha256 name rfl hp hlt etag
      refine ⟨t, false, ?_, hpart⟩
      simp only [h0, if_false, hanswer, ht]

/-- A coordinator that has the file and answers with its endpoint. -/
def HonestReplies (sha256 : Bytes → Digest) (name : String) (file : Bytes) (replies : Nat → Replies) : Prop :=
  ∀ n range r, policyFile sha256 file file.length (sha256 file) name range none = .ok r →
    (replies n).coordinator range = .ok r

theorem streamPolicyFile_honest {replies : Nat → Replies} (h : HonestReplies sha256 name file replies) (n : Nat)
    (hlt : offset < file.length) : streamPolicyFile (replies n) offset = .ok (servedFrom sha256 name file offset) := by
  have hreply := h n (rangeHeader offset) _ (policyFile_rangeHeader hlt)
  have hstatus : (servedFrom sha256 name file offset).status = expectedStatus offset := rfl
  unfold streamPolicyFile
  rw [hreply]
  simp only [bind, Except.bind, hstatus, ne_eq, not_true_eq_false, if_false]
  rfl

/-- **A download from an honest coordinator installs the file**, whatever part of it is there already. -/
theorem downloadFile_honest {replies : Nat → Replies} (h : HonestReplies sha256 name file replies) {d : Disk}
    (hsafe : d.unsafePart = false) (hp : d.part.getD [] <+: file) (hne : file ≠ []) (policyId : OpaqueId)
    (policyDigest : Digest) :
    ∃ t, downloadFile sha256 none replies policyId policyDigest name file.length (sha256 file) d = (t, .ok ()) ∧
      t.installed = some file := by
  have hle : (d.part.getD []).length ≤ file.length := hp.length_le
  have hinstall : ∀ t : Disk, t.part.getD [] = file → ∃ u,
      install sha256 file.length (sha256 file) t = (u, .ok ()) ∧ u.installed = some file := by
    intro t ht
    cases hpart : t.part with
    | none =>
      rw [hpart] at ht
      exact absurd ht.symm hne
    | some content =>
      rw [hpart, Option.getD_some] at ht
      refine ⟨{ t with part := none, installed := some file }, ?_, rfl⟩
      unfold install
      simp only [hpart, Option.getD_some, ht, ne_eq, not_true_eq_false, or_self, if_false]
  have hloop : ∃ t, retry sha256 name file.length (sha256 file) 1 (source none replies policyId policyDigest name) 1 d =
      (t, .ok ()) ∧ t.part.getD [] = file := by
    have hsource : ∀ offset < file.length, ∃ etag, source none replies policyId policyDigest name 0 offset =
        .ok (servedFrom sha256 name file offset, etag) := by
      intro offset hlt
      refine ⟨true, ?_⟩
      rw [source, streamPolicyFile_honest h 0 hlt]
      rfl
    obtain ⟨t, finished, ht, hpart⟩ := attempt_honest sha256 name hp hsource
    refine ⟨t, ?_, hpart⟩
    rw [retry, ht]
    cases finished <;> rfl
  obtain ⟨t, ht, hpart⟩ := hloop
  obtain ⟨u, hu, hinst⟩ := hinstall t hpart
  refine ⟨u, ?_, hinst⟩
  unfold downloadFile
  have htry : tryShardcast sha256 none policyDigest name file.length (sha256 file) d = (d, .ok ()) := rfl
  simp only [hsafe, Bool.false_eq_true, if_false, if_neg (Nat.not_lt.2 hle), htry, Option.elim_none, ht, hu]

/-- **A resumable download**: whatever is answered, it raises with nothing installed or installs a file of the declared
size and digest, and its partial file is never longer than declared; an honest endpoint serves every request for the rest
of the file as the client accepts it, and any true prefix is completed to the file. -/
theorem download_resumes (sha256 : Bytes → Digest) (transport : Option Transport) (replies : Nat → Replies)
    (policyId : OpaqueId) (policyDigest : Digest) (name : String) (sizeBytes : Nat) (digest : Digest) (d : Disk)
    (hi : d.installed = none) (hw : d.written = []) :
    (Leaves sha256 sizeBytes digest
        (downloadFile sha256 transport replies policyId policyDigest name sizeBytes digest d) ∧
      ∀ content ∈ (downloadFile sha256 transport replies policyId policyDigest name sizeBytes digest d).1.written,
        content.length ≤ sizeBytes) ∧
    (∀ file : Bytes, file.length = sizeBytes → sha256 file = digest → ∀ offset < sizeBytes,
      ∃ r, policyFile sha256 file sizeBytes digest name (rangeHeader offset) none = .ok r ∧
        r.status = expectedStatus offset ∧
        (∀ etag, validateResponse r name sizeBytes digest offset etag = .ok ()) ∧
        r.ending = .complete ∧ file.take offset ++ r.chunks.flatten = file) ∧
    (∀ file : Bytes, file.length = sizeBytes → sha256 file = digest → 1 ≤ sizeBytes →
      HonestReplies sha256 name file replies → d.unsafePart = false → d.part.getD [] <+: file →
        ∃ t, downloadFile sha256 none replies policyId policyDigest name sizeBytes digest d = (t, .ok ()) ∧
          t.installed = some file) := by
  refine ⟨?_, ?_, ?_⟩
  · refine leaves_downloadFile transport replies policyId policyDigest hi fun content hc => ?_
    rw [hw] at hc
    cases hc
  · rintro file rfl rfl offset hlt
    exact ⟨servedFrom sha256 name file offset, policyFile_rangeHeader hlt, rfl, validate_servedFrom hlt, rfl,
      flatten_servedFrom sha256 name file offset⟩
  · rintro file rfl rfl hpos honest hsafe hp
    exact downloadFile_honest honest hsafe hp (List.length_pos_iff.1 hpos) policyId policyDigest

namespace Sample

def hash (content : Bytes) : Digest := "sha256:" ++ toString content.sum

def replies (_ : Nat) : Replies :=
  ⟨0, .error .transport, fun _ => .error .transport, fun range =>
    match policyFile hash [1, 2, 3] 3 (hash [1, 2, 3]) "adapter_model.safetensors" range none with
    | .ok r => .ok r
    | .error _ => .error (.api 500)⟩

end Sample

/-- Two bytes that were left out are fetched. -/
theorem download_resumes_prefix :
    ∃ t, downloadFile Sample.hash none Sample.replies "policy" "digest" "adapter_model.safetensors" 3
        (Sample.hash [1, 2, 3]) ⟨false, some [1], none, []⟩ = (t, .ok ()) ∧ t.installed = some [1, 2, 3] := by
  have honest : HonestReplies Sample.hash "adapter_model.safetensors" [1, 2, 3] Sample.replies := by
    intro n range r hr
    have hsame : policyFile Sample.hash [1, 2, 3] 3 (Sample.hash [1, 2, 3]) "adapter_model.safetensors" range none =
        .ok r := hr
    simp only [Sample.replies, hsame]
  exact (download_resumes Sample.hash none Sample.replies "policy" "digest" "adapter_model.safetensors" 3
    (Sample.hash [1, 2, 3]) ⟨false, some [1], none, []⟩ rfl rfl).2.2 [1, 2, 3] rfl rfl (by decide) honest rfl
      (by decide)

end Download
end Aether
