import AetherRl.Download
import Mathlib.Tactic
/-!
# DownloadSound — what a download leaves, whatever the servers answer

The partial file holds what has been hashed, and a chunk is written only where it fits; so the file is never longer than
declared, and what is installed was checked as a whole.
-/
namespace Aether
namespace Download

open Http (Response Ending)

variable {sha256 : Bytes → Digest} {sizeBytes : Nat} {digest : Digest} {name : String} {d t : Disk}

/-- The partial file is not longer than declared, nor ever was, and nothing is installed. -/
structure Within (sizeBytes : Nat) (d : Disk) : Prop where
  part : (d.part.getD []).length ≤ sizeBytes
  written : ∀ content ∈ d.written, content.length ≤ sizeBytes
  installed : d.installed = none

theorem Within.unlink (h : Within sizeBytes d) : Within sizeBytes d.unlink := ⟨Nat.zero_le _, h.written, h.installed⟩

theorem Within.write (h : Within sizeBytes d) {content : Bytes} (hc : content.length ≤ sizeBytes) :
    Within sizeBytes (d.write content) :=
  ⟨hc, List.forall_mem_cons.2 ⟨hc, h.written⟩, h.installed⟩

theorem Within.append (h : Within sizeBytes d) {chunk : Bytes}
    (hc : (d.part.getD []).length + chunk.length ≤ sizeBytes) : Within sizeBytes (d.append chunk) := by
  refine h.write ?_
  rw [List.length_append]
  exact hc

theorem part_append (d : Disk) (chunk : Bytes) : (d.append chunk).part.getD [] = d.part.getD [] ++ chunk := rfl

/-! ## An attempt -/

/-- **Chunks are written only where they fit.** -/
theorem within_receive (ending : Ending) : ∀ (chunks : List Bytes) (d : Disk) (hashed : Bytes), Within sizeBytes d →
    Within sizeBytes (receive sizeBytes ending chunks d (d.part.getD []).length hashed).1
  | [], d, hashed, h => by
    cases ending <;> exact h
  | chunk :: chunks, d, hashed, h => by
    rw [receive]
    split
    · exact h
    · rename_i hfits
      have hstep := within_receive ending chunks (d.append chunk) (hashed ++ chunk) (h.append (Nat.le_of_not_lt hfits))
      rw [part_append, List.length_append] at hstep
      exact hstep

theorem within_download (h : Within sizeBytes d) (hashed : Bytes)
    (streamed : Except Error (Response × Bool)) :
    Within sizeBytes (download sha256 name sizeBytes digest d (d.part.getD []).length hashed streamed).1 := by
  unfold download
  split
  · exact h
  · split
    · exact h
    · rename_i response _ _ _
      have hreceive : Within sizeBytes (receive sizeBytes response.ending response.chunks
          (if (d.part.getD []).length = 0 then d.write [] else d) (d.part.getD []).length hashed).1 := by
        split
        · rename_i h0
          have hbegin := within_receive response.ending response.chunks (d.write []) hashed (h.write (Nat.zero_le _))
          rw [h0]
          exact hbegin
        · exact within_receive response.ending response.chunks d hashed h
      split
      · rename_i heq
        rw [heq] at hreceive
        exact hreceive
      · rename_i heq
        rw [heq] at hreceive
        split
        · exact hreceive.unlink
        · exact hreceive

theorem within_attempt (h : Within sizeBytes d) (source : Nat → Except Error (Response × Bool)) :
    Within sizeBytes (attempt sha256 name sizeBytes digest source d).1 := by
  have hrest : Within sizeBytes (download sha256 name sizeBytes digest d (d.part.getD []).length (d.part.getD [])
      (source (d.part.getD []).length)).1 := within_download h _ _
  have hanew : Within sizeBytes (download sha256 name sizeBytes digest d.unlink 0 [] (source 0)).1 :=
    within_download h.unlink _ _
  unfold attempt
  simp only
  split
  · exact h
  · by_cases hbegin : (d.part.getD []).length = sizeBytes ∨ (d.part.getD []).length = 0
    · simp only [if_pos hbegin, List.length_nil]
      split <;> rename_i heq <;> rw [heq] at hanew <;> exact hanew
    · simp only [if_neg hbegin]
      split <;> rename_i heq <;> rw [heq] at hrest <;> exact hrest

theorem within_retry (sha256 : Bytes → Digest) (name : String) (digest : Digest) (attempts : Nat) (source : Nat → Nat → Except Error (Response × Bool)) :
    ∀ (left : Nat) (d : Disk), Within sizeBytes d →
      Within sizeBytes (retry sha256 name sizeBytes digest attempts source left d).1
  | 0, _, h => h
  | left + 1, d, h => by
    have hstep : Within sizeBytes (attempt sha256 name sizeBytes digest (source (attempts - (left + 1))) d).1 :=
      within_attempt h _
    rw [retry]
    split
    · rename_i heq
      rw [heq] at hstep
      exact hstep
    · rename_i heq
      rw [heq] at hstep
      exact within_retry sha256 name digest attempts source left _ hstep
    · rename_i heq
      rw [heq] at hstep
      split
      · exact within_retry sha256 name digest attempts source left _ hstep
      · exact hstep

/-! ## Shards -/

/-- A body that does not break off is written as it is received, or is too long. -/
theorem shardBody_some {expectedSize : Nat} {ending : Ending} : ∀ (chunks : List Bytes) (content : Bytes)
    {received' : Nat} {content' : Bytes},
    shardBody expectedSize ending chunks content.length content = some (received', content') →
      expectedSize < received' ∨ content'.length = received'
  | [], content, received', content', h => by
    rw [shardBody] at h
    split at h
    · obtain ⟨rfl, rfl⟩ := Prod.mk.inj (Option.some.inj h)
      exact Or.inr rfl
    · cases h
  | chunk :: chunks, content, received', content', h => by
    rw [shardBody] at h
    split at h
    · rename_i hlong
      obtain ⟨rfl, rfl⟩ := Prod.mk.inj (Option.some.inj h)
      exact Or.inl hlong
    · rw [← List.length_append] at h
      exact shardBody_some chunks (content ++ chunk) h

/-- **A shard has the size that was asked for.** -/
theorem length_downloadShard {expectedSize : Nat} : ∀ {servers : List (Except Error Response)} {content : Bytes},
    downloadShard expectedSize servers = some content → content.length = expectedSize
  | [], content, h => by cases h
  | .error e :: servers, content, h => by
    cases e with
    | transport =>
      rw [downloadShard] at h
      exact length_downloadShard h
    | corruption m => cases h
    | api s => cases h
    | protocol m => cases h
    | other => cases h
  | .ok r :: servers, content, h => by
    rw [downloadShard] at h
    split at h
    · exact length_downloadShard h
    · split at h
      · cases h
      · rename_i received written hbody
        split at h
        · rename_i heq
          obtain rfl := Option.some.inj h
          rcases shardBody_some r.chunks [] hbody with hlt | hlength
          · omega
          · exact hlength.trans heq
        · exact length_downloadShard h

theorem map_of_mapM {α β γ : Type} {f : α → Option β} {g : β → γ} {k : α → γ} (h : ∀ x y, f x = some y → g y = k x) :
    ∀ {xs : List α} {ys : List β}, xs.mapM f = some ys → ys.map g = xs.map k
  | [], ys, hm => by
    rw [List.mapM_nil] at hm
    cases hm
    rfl
  | x :: xs, ys, hm => by
    simp only [List.mapM_cons, Option.bind_eq_bind, Option.bind_eq_some_iff, Option.pure_def, Option.some.injEq] at hm
    obtain ⟨y, hy, zs, hzs, rfl⟩ := hm
    rw [List.map_cons, List.map_cons, h x y hy, map_of_mapM h hzs]

/-- **Shards of one size**, the last cut short, have the size of the whole. -/
theorem sum_shards (sizeBytes size : Nat) : ∀ n : Nat,
    ((List.range n).map fun i => min size (sizeBytes - i * size)).sum = min (n * size) sizeBytes
  | 0 => by rw [List.range_zero, List.map_nil, List.sum_nil, Nat.zero_mul, Nat.zero_min]
  | n + 1 => by
    rw [List.range_succ, List.map_append, List.sum_append, sum_shards sizeBytes size n, List.map_singleton,
      List.sum_singleton, Nat.succ_mul]
    omega

theorem within_shards : ∀ (shards : List Bytes) (d : Disk), Within sizeBytes d →
    (d.part.getD []).length + (shards.map List.length).sum ≤ sizeBytes →
      Within sizeBytes (shards.foldl Disk.append d)
  | [], _, h, _ => h
  | shard :: shards, d, h, hsum => by
    rw [List.map_cons, List.sum_cons] at hsum
    refine within_shards shards (d.append shard) (h.append (by omega)) ?_
    rw [part_append, List.length_append]
    omega

theorem within_downloadShardcast {s : Shardcast} {policyDigest : Digest} {ok : Bool} (h : Within sizeBytes d)
    (hd : downloadShardcast s policyDigest name sizeBytes digest d = .ok (t, ok)) : Within sizeBytes t := by
  unfold downloadShardcast at hd
  split at hd
  · obtain ⟨rfl, -⟩ := Prod.mk.inj (Except.ok.inj hd)
    exact h
  · split at hd
    · cases hd
    · obtain ⟨rfl, -⟩ := Prod.mk.inj (Except.ok.inj hd)
      exact h
    · split at hd
      · obtain ⟨rfl, -⟩ := Prod.mk.inj (Except.ok.inj hd)
        exact h
      · rename_i size _
        split at hd
        · obtain ⟨rfl, -⟩ := Prod.mk.inj (Except.ok.inj hd)
          exact h
        · rename_i shards hshards
          obtain ⟨rfl, -⟩ := Prod.mk.inj (Except.ok.inj hd)
          have hlengths := map_of_mapM (g := List.length) (k := fun i => min size (sizeBytes - i * size))
            (fun i content hc => length_downloadShard hc) hshards
          refine within_shards shards _ (h.write (Nat.zero_le _)) ?_
          rw [hlengths, sum_shards]
          change 0 + _ ≤ sizeBytes
          rw [Nat.zero_add]
          exact Nat.min_le_right _ _

theorem within_tryShardcast (sha256 : Bytes → Digest) (transport : Option Transport) (policyDigest : Digest)
    (name : String) (digest : Digest) (h : Within sizeBytes d) :
    Within sizeBytes (tryShardcast sha256 transport policyDigest name sizeBytes digest d).1 := by
  unfold tryShardcast
  split
  · exact h
  · split
    · exact h
    · split
      · exact h
      · rename_i hd
        have ht := within_downloadShardcast h hd
        simp only
        split
        · exact ht.unlink
        · exact ht

/-! ## The whole download -/

/-- What `_download_file` leaves: a file of the declared size and digest, or none. -/
def Leaves (sha256 : Bytes → Digest) (sizeBytes : Nat) (digest : Digest) : Disk × Except Error Unit → Prop
  | (d, .ok ()) => ∃ content, d.installed = some content ∧ content.length = sizeBytes ∧ sha256 content = digest
  | (d, .error _) => d.installed = none

theorem leaves_install (h : Within sizeBytes d) :
    Leaves sha256 sizeBytes digest (install sha256 sizeBytes digest d) ∧
      ∀ content ∈ (install sha256 sizeBytes digest d).1.written, content.length ≤ sizeBytes := by
  unfold install
  simp only
  split
  · exact ⟨h.installed, h.written⟩
  · rename_i hchecked
    rw [not_or, not_not, not_not] at hchecked
    split
    · exact ⟨h.installed, h.written⟩
    · rename_i content hpart
      rw [hpart, Option.getD_some] at hchecked
      exact ⟨⟨content, rfl, hchecked⟩, h.written⟩

/-- **A download either raises with nothing installed or installs a file of the declared size and digest**, and the
partial file it writes is never longer than declared. -/
theorem leaves_downloadFile (transport : Option Transport) (replies : Nat → Replies) (policyId : OpaqueId)
    (policyDigest : Digest) (hi : d.installed = none) (hw : ∀ content ∈ d.written, content.length ≤ sizeBytes) :
    Leaves sha256 sizeBytes digest
        (downloadFile sha256 transport replies policyId policyDigest name sizeBytes digest d) ∧
      ∀ content ∈ (downloadFile sha256 transport replies policyId policyDigest name sizeBytes digest d).1.written,
        content.length ≤ sizeBytes := by
  unfold downloadFile
  split
  · exact ⟨hi, hw⟩
  · have hbegin : Within sizeBytes (if sizeBytes < (d.part.getD []).length then d.unlink else d) := by
      split
      · exact ⟨Nat.zero_le _, hw, hi⟩
      · rename_i hfits
        exact ⟨Nat.le_of_not_lt hfits, hw, hi⟩
    have htry := within_tryShardcast sha256 transport policyDigest name digest hbegin
    simp only
    split
    · rename_i heq
      rw [heq] at htry
      exact ⟨htry.installed, htry.written⟩
    · rename_i disk heq
      rw [heq] at htry
      have hretry := within_retry sha256 name digest (transport.elim 1 (·.attempts))
        (source transport replies policyId policyDigest name) (transport.elim 1 (·.attempts)) disk htry
      split
      · rename_i heq
        rw [heq] at hretry
        exact ⟨hretry.installed, hretry.written⟩
      · rename_i heq
        rw [heq] at hretry
        exact leaves_install hretry

end Download
end Aether
