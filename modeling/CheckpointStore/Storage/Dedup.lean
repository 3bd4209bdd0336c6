import CheckpointStore.Foundation.UnorderedMap
import CheckpointStore.Model.Records

/-!
# The deduplication table

After `dedup.hpp` and `dedup.cpp`. An entry is keyed by the full digest and counts the chunk
references to its blob. Each operation comes with a lemma that says what it does to every
entry (`find_*`) or to every reference count (`refcount_*`); later modules use only these.
-/

namespace CheckpointStore

open Foundation

/-- What the table keeps for a digest. -/
structure DedupEntry where
  blobId : BlobId := {}
  digest : Digest
  physicalSize : UInt64 := 0
  refcount : UInt64 := 0
  integrity : IntegrityState := .unknown
  generation : BlobGeneration := {}

/-- What a lookup answers. -/
inductive DedupResult where
  | miss | hit | reject
  deriving DecidableEq

/-- The decision for one chunk. -/
structure DedupLookup where
  result : DedupResult := .miss
  blobId : BlobId := {}

/-- Stored blobs by their digests. -/
structure DedupTable where
  entries : UnorderedMap Digest DedupEntry := ∅

namespace DedupTable

/-- `std::numeric_limits<std::uint64_t>::max()`. -/
def maxRefcount : UInt64 := 0xFFFFFFFFFFFFFFFF

/-- The entry of a digest. -/
def find (t : DedupTable) (digest : Digest) : Option DedupEntry := t.entries.find digest

/-- Whether a digest has an entry. -/
def contains (t : DedupTable) (digest : Digest) : Bool := (t.find digest).isSome

/-- A hit needs an entry of the same size that is not corrupt; another size or a corrupt entry
is refused, and empty content is always a miss. -/
def lookup (t : DedupTable) (digest : Digest) (physicalSize : UInt64) :
    Except Exn DedupLookup :=
  if physicalSize = 0 then .ok { result := .miss }
  else match t.find digest with
    | none => .ok { result := .miss }
    | some e =>
        if e.physicalSize ≠ physicalSize then
          .error (.error .conflict "dedup digest matched but physical size disagrees")
        else if e.integrity = .corrupt then
          .error (.error .corrupt "dedup candidate is corrupt and will not be shared")
        else .ok { result := .hit, blobId := e.blobId }

/-- Record a new blob with one reference. An entry of the same size is left as it is and
`false` is returned. -/
def insert (t : DedupTable) (id : BlobId) (digest : Digest) (physicalSize : UInt64)
    (integrity : IntegrityState) (generation : BlobGeneration) :
    Except Exn (Bool × DedupTable) :=
  match t.find digest with
  | some e =>
      if e.physicalSize = physicalSize then .ok (false, t)
      else .error (.error .conflict "dedup insert collision: identical digest, different size")
  | none =>
      let e : DedupEntry := {
        blobId := id, digest, physicalSize, refcount := 1, integrity, generation }
      .ok (true, ⟨t.entries.emplace digest e⟩)

/-- Add one reference to an existing blob. -/
def addReference (t : DedupTable) (digest : Digest) : Except Exn (Bool × DedupTable) :=
  match t.find digest with
  | none => .ok (false, t)
  | some e =>
      if e.integrity = .corrupt then
        .error (.error .corrupt "cannot reference a corrupt blob")
      else if e.refcount = maxRefcount then .error (.error .overflow "refcount overflow")
      else .ok (true, ⟨t.entries.modify digest fun e => { e with refcount := e.refcount + 1 }⟩)

/-- Release one reference; a release at zero changes nothing and returns `false`. -/
def releaseReference (t : DedupTable) (digest : Digest) : Bool × DedupTable :=
  match t.find digest with
  | none => (false, t)
  | some e =>
      if e.refcount = 0 then (false, t)
      else (true, ⟨t.entries.modify digest fun e => { e with refcount := e.refcount - 1 }⟩)

/-- The references to a digest, 0 without an entry. -/
def refcount (t : DedupTable) (digest : Digest) : UInt64 :=
  match t.find digest with
  | none => 0
  | some e => e.refcount

/-- The number of entries. -/
def size (t : DedupTable) : Nat := t.entries.size

/-- The sizes of all entries together. -/
def uniquePhysicalBytes (t : DedupTable) : UInt64 :=
  t.entries.values.foldl (fun total e => total + e.physicalSize) 0

/-- All entries, in the order of the table. -/
def snapshot (t : DedupTable) : List (Digest × DedupEntry) := t.entries.entries

/-- Insert a fully formed entry during recovery. -/
def insertBlobEntryDirect (t : DedupTable) (e : DedupEntry) : DedupTable :=
  ⟨t.entries.assign e.digest e⟩

/-- Drop the entry when nothing references it. -/
def releaseUntilOrphan (t : DedupTable) (digest : Digest) : Bool × DedupTable :=
  match t.find digest with
  | none => (false, t)
  | some e => if 0 < e.refcount then (false, t) else (true, ⟨t.entries.erase digest⟩)

@[simp] theorem find_empty (d : Digest) : ({} : DedupTable).find d = none := rfl

theorem refcount_of_find {t : DedupTable} {d : Digest} {e : DedupEntry}
    (h : t.find d = some e) : t.refcount d = e.refcount := by
  simp [refcount, h]

theorem refcount_of_find_none {t : DedupTable} {d : Digest} (h : t.find d = none) :
    t.refcount d = 0 := by
  simp [refcount, h]

/-- A counted digest has an entry. -/
theorem find_of_refcount_ne_zero {t : DedupTable} {d : Digest} (h : t.refcount d ≠ 0) :
    ∃ e, t.find d = some e := by
  cases hfind : t.find d with
  | none => exact absurd (refcount_of_find_none hfind) h
  | some e => exact ⟨e, rfl⟩

/-- What a successful lookup says about the entry. -/
theorem lookup_cases {t : DedupTable} {d : Digest} {size : UInt64} {r : DedupLookup}
    (hsize : size ≠ 0) (h : t.lookup d size = .ok r) :
    (r.result = .miss ∧ t.find d = none) ∨
      (r.result = .hit ∧ ∃ e, t.find d = some e ∧ e.physicalSize = size ∧
        e.integrity ≠ .corrupt ∧ r.blobId = e.blobId) := by
  unfold lookup at h
  rw [if_neg hsize] at h
  cases hfind : t.find d with
  | none =>
      simp only [hfind, Except.ok.injEq] at h
      subst h
      exact Or.inl ⟨rfl, rfl⟩
  | some e =>
      simp only [hfind] at h
      split at h
      · simp at h
      · next hsame =>
          split at h
          · simp at h
          · next hgood =>
              cases h
              exact Or.inr ⟨rfl, e, rfl, by simpa using hsame, hgood, rfl⟩

/-- A successful insertion adds a fresh entry or finds one of the same size. -/
theorem insert_cases {t t' : DedupTable} {id : BlobId} {d : Digest} {size : UInt64}
    {integrity : IntegrityState} {generation : BlobGeneration} {added : Bool}
    (h : t.insert id d size integrity generation = .ok (added, t')) :
    (t.find d = none ∧ ∀ d', t'.find d' = if d' = d then
        some { blobId := id, digest := d, physicalSize := size, refcount := 1,
               integrity := integrity, generation := generation } else t.find d') ∨
      (∃ e, t.find d = some e ∧ e.physicalSize = size ∧ t' = t) := by
  unfold insert at h
  cases hfind : t.find d with
  | none =>
      simp only [hfind, Except.ok.injEq, Prod.mk.injEq] at h
      obtain ⟨_, rfl⟩ := h
      refine Or.inl ⟨rfl, fun d' => ?_⟩
      have hnone : t.entries.find d = none := hfind
      rw [find, UnorderedMap.emplace_of_find_none hnone, UnorderedMap.find_assign]
      rfl
  | some e =>
      simp only [hfind] at h
      split at h
      · next hsame =>
          simp only [Except.ok.injEq, Prod.mk.injEq] at h
          exact Or.inr ⟨e, rfl, hsame, h.2.symm⟩
      · simp at h

/-- A successful `addReference` on an entry raises its count and nothing else. -/
theorem add_reference_cases {t t' : DedupTable} {d : Digest} {e : DedupEntry} {added : Bool}
    (hfind : t.find d = some e) (h : t.addReference d = .ok (added, t')) :
    e.refcount ≠ maxRefcount ∧ ∀ d', t'.find d' =
      if d' = d then some { e with refcount := e.refcount + 1 } else t.find d' := by
  simp only [addReference, hfind] at h
  split at h
  · simp at h
  · split at h
    · simp at h
    · next hmax =>
        simp only [Except.ok.injEq, Prod.mk.injEq] at h
        obtain ⟨_, rfl⟩ := h
        refine ⟨hmax, fun d' => ?_⟩
        have hfind' : t.entries.find d = some e := hfind
        rw [find, UnorderedMap.find_modify]
        by_cases hd : d' = d
        · subst hd; simp [hfind']
        · simp [hd, find]

/-- Releasing changes the count of its own digest only, by at most one, and keeps the entry. -/
theorem find_release_reference (t : DedupTable) (d d' : Digest) :
    (t.releaseReference d).2.find d' =
      if d' = d then (t.find d).map fun e => { e with refcount :=
        if e.refcount = 0 then 0 else e.refcount - 1 } else t.find d' := by
  unfold releaseReference
  cases hfind : t.find d with
  | none =>
      by_cases hd : d' = d
      · subst hd; simp [hfind]
      · simp [hd]
  | some e =>
      by_cases hzero : e.refcount = 0
      · by_cases hd : d' = d
        · subst hd
          simp [hzero, hfind]
          cases e
          simp_all
        · simp [hzero, hd]
      · have hfind' : t.entries.find d = some e := hfind
        by_cases hd : d' = d
        · subst hd; simp [hzero, find, hfind']
        · simp [hzero, hd, find]

/-- Dropping an orphan removes the entry of its own digest exactly when its count is zero. -/
theorem find_release_until_orphan (t : DedupTable) (d d' : Digest) :
    (t.releaseUntilOrphan d).2.find d' =
      if d' = d ∧ t.refcount d = 0 then none else t.find d' := by
  unfold releaseUntilOrphan
  cases hfind : t.find d with
  | none =>
      by_cases hd : d' = d
      · subst hd; simp [hfind]
      · simp [hd]
  | some e =>
      rw [refcount_of_find hfind]
      by_cases hpos : 0 < e.refcount
      · have hne : e.refcount ≠ 0 := fun h0 => by simp [h0] at hpos
        simp [hpos, hne]
      · have hzero : e.refcount = 0 := by
          rw [← UInt64.toNat_inj]
          simp only [UInt64.lt_iff_toNat_lt, not_lt] at hpos
          simpa using hpos
        by_cases hd : d' = d
        · subst hd; simp [hzero, find]
        · simp [hzero, hd, find]

/-- A direct insertion replaces the entry. -/
theorem find_insert_blob_entry_direct (t : DedupTable) (e : DedupEntry) (d : Digest) :
    (t.insertBlobEntryDirect e).find d = if d = e.digest then some e else t.find d := by
  simp [insertBlobEntryDirect, find]

/-- The count of every digest after one release, as a natural number. -/
theorem refcount_release_reference (t : DedupTable) (d d' : Digest) :
    ((t.releaseReference d).2.refcount d').toNat =
      if d' = d then (t.refcount d).toNat - 1 else (t.refcount d').toNat := by
  unfold refcount
  rw [find_release_reference]
  by_cases hd : d' = d
  · subst hd
    cases hfind : t.find d' with
    | none => simp
    | some e =>
        by_cases hzero : e.refcount = 0
        · simp [hzero]
        · have hpos : 1 ≤ e.refcount := by
            rw [UInt64.le_iff_toNat_le]
            have : e.refcount.toNat ≠ 0 := fun h0 => hzero (UInt64.toNat_inj.mp (by simpa using h0))
            simp
            omega
          simp [hzero, UInt64.toNat_sub_of_le _ _ hpos]
  · simp [hd]

/-- Dropping an orphan changes no reference count. -/
theorem refcount_release_until_orphan (t : DedupTable) (d d' : Digest) :
    (t.releaseUntilOrphan d).2.refcount d' = t.refcount d' := by
  conv_lhs => unfold refcount
  rw [find_release_until_orphan]
  by_cases hd : d' = d ∧ t.refcount d = 0
  · rw [if_pos hd]
    obtain ⟨rfl, hzero⟩ := hd
    simp [hzero]
  · rw [if_neg hd]
    rfl

/-! ## Exceptions -/

/-- A lookup throws errors of the library only. -/
theorem own_failures_lookup (t : DedupTable) (digest : Digest) (physicalSize : UInt64) :
    OwnFailures (t.lookup digest physicalSize) := by
  unfold lookup
  repeat' split
  all_goals first | exact own_failures_ok _ | exact own_failures_error rfl

/-- So does an insertion. -/
theorem own_failures_insert (t : DedupTable) (id : BlobId) (digest : Digest)
    (physicalSize : UInt64) (integrity : IntegrityState) (generation : BlobGeneration) :
    OwnFailures (t.insert id digest physicalSize integrity generation) := by
  unfold insert
  repeat' split
  all_goals first | exact own_failures_ok _ | exact own_failures_error rfl

/-- So does a new reference. -/
theorem own_failures_add_reference (t : DedupTable) (digest : Digest) :
    OwnFailures (t.addReference digest) := by
  unfold addReference
  repeat' split
  all_goals first | exact own_failures_ok _ | exact own_failures_error rfl

end DedupTable

end CheckpointStore
