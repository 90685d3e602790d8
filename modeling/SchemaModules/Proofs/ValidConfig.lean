import Mathlib.Data.List.Nodup
import SchemaModules.Config.Validity

/-!
# Proofs: what a valid configuration promises

The modules of a valid configuration have names of their own, which can name files and are not the name
of the index.
-/

namespace SchemaModules.Config

theorem isFileStem_iff {name : String} : isFileStem name = true ↔
    name.toList ≠ [] ∧ ∀ c ∈ name.toList, isStemChar c = true := by
  unfold isFileStem
  simp

/-- Buckets without a defect have usable names of their own. -/
theorem bucketDefect?_eq_none {seen : List String} {buckets : List Bucket}
    (h : bucketDefect? seen buckets = none) :
    (buckets.map Bucket.name).Nodup ∧ (∀ b ∈ buckets, b.name ∉ seen) ∧
      ∀ b ∈ buckets, isFileStem b.name = true := by
  induction buckets generalizing seen with
  | nil => simp
  | cons b buckets ih =>
    rw [bucketDefect?] at h
    split at h
    · simp at h
    · rename_i hstem
      split at h
      · simp at h
      · rename_i hseen
        obtain ⟨hnodup, hfresh, hstems⟩ := ih h
        refine ⟨List.nodup_cons.mpr ⟨fun hmem => ?_, hnodup⟩, ?_, ?_⟩
        · obtain ⟨b', hb', hname⟩ := List.mem_map.mp hmem
          exact hfresh b' hb' (by simp [hname])
        · refine List.forall_mem_cons.mpr ⟨by simpa using hseen, fun b' hb' hmem => ?_⟩
          exact hfresh b' hb' (List.mem_cons_of_mem _ hmem)
        · exact List.forall_mem_cons.mpr ⟨by simpa using hstem, hstems⟩

variable {c : Config}

/-- A configuration without a defect has none of each kind. -/
theorem Valid.checks (h : c.Valid) :
    isFileStem c.fileExtension = true ∧ isFileStem c.defaultBucket = true ∧
      isFileStem c.indexName = true ∧ bucketDefect? [] c.buckets = none ∧
      c.indexName ∉ c.moduleOrder := by
  unfold Valid defect? at h
  split at h
  · simp at h
  · rename_i hextension
    split at h
    · simp at h
    · rename_i hdefault
      split at h
      · simp at h
      · rename_i hindex
        split at h
        · simp at h
        · rename_i hbuckets
          split at h
          · simp at h
          · rename_i hcollision
            exact ⟨by simpa using hextension, by simpa using hdefault, by simpa using hindex,
              hbuckets, by simpa using hcollision⟩

theorem Valid.nodup_moduleOrder (h : c.Valid) : c.moduleOrder.Nodup := by
  obtain ⟨hnodup, -, -⟩ := bucketDefect?_eq_none h.checks.2.2.2.1
  unfold moduleOrder
  dsimp only
  split
  · exact hnodup
  · rename_i hdefault
    have hdisjoint : ∀ a ∈ c.buckets.map Bucket.name, ∀ b ∈ [c.defaultBucket], a ≠ b := by
      rintro a ha b hb rfl
      rw [List.mem_singleton.mp hb] at ha
      exact hdefault (by simpa using ha)
    exact List.nodup_append.mpr ⟨hnodup, List.nodup_singleton _, hdisjoint⟩

theorem Valid.isFileStem_of_mem_moduleOrder (h : c.Valid) {name : String}
    (hname : name ∈ c.moduleOrder) : isFileStem name = true := by
  obtain ⟨-, hdefault, -, hbuckets, -⟩ := h.checks
  have hbucket : ∀ n ∈ c.buckets.map Bucket.name, isFileStem n = true := by
    intro n hn
    obtain ⟨b, hb, rfl⟩ := List.mem_map.mp hn
    exact (bucketDefect?_eq_none hbuckets).2.2 b hb
  unfold moduleOrder at hname
  dsimp only at hname
  split at hname
  · exact hbucket name hname
  · rcases List.mem_append.mp hname with hname | hname
    · exact hbucket name hname
    · rwa [List.mem_singleton.mp hname]

end SchemaModules.Config
