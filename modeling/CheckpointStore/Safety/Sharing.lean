import CheckpointStore.Safety.Counters
import CheckpointStore.Safety.Rollback
import Mathlib.Algebra.BigOperators.Group.Finset.Piecewise
import Mathlib.Algebra.Order.BigOperators.Group.Finset
import Mathlib.Algebra.Order.BigOperators.Group.List

/-!
# Sharing of contents

How a publication counts the chunks it shares and the chunks it writes. A chunk with an entry
whose object verifies is shared and counted, a chunk without an entry is written and counted, and
a chunk whose object does not verify is written again and not counted: `publish_counts_chunks`
gives the reference counts exactly, for every sequence of answers. Over undamaged objects a
publication writes each new content once (`publish_writes_new_content_once`).
-/

namespace CheckpointStore

open Foundation Foundation.Procedure

variable {W : Type}

/-! ## Reference counts -/

/-- A `verify` call about the digest that did not find a good object. -/
def Observation.refused (d : Digest) : Observation → Bool
  | .verified _ d' answer => d' = d && answer ≠ .verified
  | .removing _ _ => false

section Counting

variable {underlay : IBackend W} {slice : ChunkSlice} {slices : List ChunkSlice}
  {p q : Publishing W}

/-- A round counts its chunk, unless the object of the entry was refused. -/
theorem Acquired.refcount_exact {blobId : BlobId} (h : Acquired underlay slice p blobId q) :
    ∃ answers, q.system.trace = p.system.trace ++ answers ∧ ∀ d,
      (q.system.store.dedup.refcount d).toNat + answers.countP (Observation.refused d) =
        (p.system.store.dedup.refcount d).toNat + if d = slice.digest then 1 else 0 := by
  cases h with
  | reused hfind _ hadd =>
      refine ⟨_, rfl, fun d => ?_⟩
      simpa [Observation.refused] using refcount_add_reference hfind hadd d
  | written hmissed _ _ hinsert =>
      cases hmissed with
      | absent hfind =>
          exact ⟨[], (List.append_nil _).symm, refcount_insert_absent hfind hinsert⟩
      | damaged hfind hsize _ hanswer =>
          refine ⟨_, rfl, fun d => ?_⟩
          obtain ⟨hnone, -⟩ | ⟨_, _, _, rfl⟩ := DedupTable.insert_cases hinsert
          · rw [hfind] at hnone
            cases hnone
          · by_cases hd : d = slice.digest
            · simp [Observation.refused, hd, hanswer]
            · simp [Observation.refused, hd, Ne.symm hd]

/-- The rounds count their chunks, except those whose objects were refused. -/
theorem Rounds.refcount_exact (h : Rounds underlay slices p q) :
    ∃ answers, q.system.trace = p.system.trace ++ answers ∧ ∀ d,
      (q.system.store.dedup.refcount d).toNat + answers.countP (Observation.refused d) =
        (p.system.store.dedup.refcount d).toNat +
          slices.countP fun slice => slice.digest = d := by
  induction h with
  | nil p => exact ⟨[], (List.append_nil _).symm, fun d => rfl⟩
  | @cons slice rest p q p' blobId hacquired hrest ih =>
      obtain ⟨first, htrace, hfirst⟩ := hacquired.refcount_exact
      obtain ⟨later, htrace', hlater⟩ := ih
      refine ⟨first ++ later, ?_, fun d => ?_⟩
      · rw [← List.append_assoc, ← htrace]
        exact htrace'
      · have h₁ := hfirst d
        have h₂ : _ = (q.system.store.dedup.refcount d).toNat + _ := hlater d
        have hslice : ([slice].countP fun slice => slice.digest = d) =
            if d = slice.digest then 1 else 0 := by
          rw [List.countP_singleton]
          simp only [decide_eq_true_eq, @eq_comm _ d]
        rw [List.countP_append, ← List.singleton_append, List.countP_append, hslice]
        omega

end Counting

/-- Every committed chunk is counted whose object was not refused. If `publish` returns, the count
of every digest has grown by the number of chunks with that digest, less the number of `verify`
calls about it that did not answer `Verified`. So all counts are right exactly if every such call
did. -/
theorem publish_counts_chunks {env : Env} {descriptor : CheckpointDescriptor} {data : Bytes}
    {s s' : System W} {r : PublishedCheckpoint} {slices : List ChunkSlice}
    (hpublish : publish env descriptor data s = .ok r s')
    (hslices : chunkStream env.hash data s.store.options.chunkSize = .ok slices) :
    ∃ answers, s'.trace = s.trace ++ answers ∧
      (∀ d, (s'.store.dedup.refcount d).toNat + answers.countP (Observation.refused d) =
        (s.store.dedup.refcount d).toNat + slices.countP fun slice => slice.digest = d) ∧
      ((∀ d, (s'.store.dedup.refcount d).toNat =
          (s.store.dedup.refcount d).toNat + slices.countP fun slice => slice.digest = d) ↔
        ∀ o ∈ answers, o.Good) := by
  have hpublished := (post_publish env descriptor data s).of_ok hpublish
  cases hpublished with
  | @intro _ _ p _ _ hslices' hrounds _ _ =>
      obtain rfl := Except.ok.inj (hslices.symm.trans hslices')
      obtain ⟨answers, htrace, hrefcount⟩ := hrounds.refcount_exact
      have hcount : ∀ d, ((publishedStore env descriptor data p).dedup.refcount d).toNat +
          answers.countP (Observation.refused d) = (s.store.dedup.refcount d).toNat +
            slices.countP fun slice => slice.digest = d := hrefcount
      refine ⟨answers, htrace, hcount, fun hexact o ho => ?_, fun hgood d => ?_⟩
      · cases o with
        | removing => trivial
        | verified key d answer =>
            show answer = .verified
            by_contra hbad
            have hcounted : 0 < answers.countP (Observation.refused d) :=
              List.countP_pos_iff.mpr ⟨_, ho, by simpa [Observation.refused] using hbad⟩
            have h₁ : ((publishedStore env descriptor data p).dedup.refcount d).toNat = _ :=
              hexact d
            have h₂ := hcount d
            omega
      · have hzero : answers.countP (Observation.refused d) = 0 := by
          rw [List.countP_eq_zero]
          intro o ho hrefused
          have hgood' := hgood o ho
          cases o with
          | removing => simp [Observation.refused] at hrefused
          | verified key d' answer =>
              simp [Observation.refused, show answer = .verified from hgood'] at hrefused
        have h := hcount d
        rwa [hzero] at h

/-- Two chunks with one content, new to the store: both are counted. -/
theorem publish_counts_chunks_repeated :
    ∃ r s' answers, publish (sampleEnv tagHash) (sampleDescriptor 7 1 2) [0, 0]
        (sampleRun tagHash [] [.createFamily]) = .ok r s' ∧
      s'.trace = (sampleRun tagHash [] [.createFamily]).trace ++ answers ∧
      (s'.store.dedup.refcount (tagHash.sha256 [0])).toNat +
        answers.countP (Observation.refused (tagHash.sha256 [0])) = 2 := by
  have hreturns : thrown (publish (sampleEnv tagHash) (sampleDescriptor 7 1 2) [0, 0]
      (sampleRun tagHash [] [.createFamily])) = none := by
    decide +kernel
  cases hpublish : publish (sampleEnv tagHash) (sampleDescriptor 7 1 2) [0, 0]
      (sampleRun tagHash [] [.createFamily]) with
  | error e s' => simp [hpublish] at hreturns
  | ok r s' =>
      obtain ⟨answers, htrace, hcount, -⟩ := publish_counts_chunks hpublish rfl
      exact ⟨r, s', answers, rfl, htrace, (hcount (tagHash.sha256 [0])).trans (by decide +kernel)⟩

/-- A store with one checkpoint, whose object has been lost. -/
def lostSystem (H : StreamHash) : System MemoryWorld :=
  { sampleRun H [] [.createFamily, .publish (sampleDescriptor 7 1 1) [5]] with world := {} }

/-- A chunk whose stored object is not good is written again, and its reference is not counted:
the second checkpoint with this content leaves the count at one. -/
theorem rewritten_chunk_not_counted :
    (∃ events, Run (Step (sampleEnv sha256Hash) Anything) (sampleSystem sha256Hash []) events
        (lostSystem sha256Hash)) ∧
      let result := publish (sampleEnv sha256Hash) (sampleDescriptor 8 2 1) [5]
        (lostSystem sha256Hash)
      thrown result = none ∧
      ((chunkStream sha256Hash [5] (lostSystem sha256Hash).store.options.chunkSize).toOption.map
        fun slices => slices.countP fun slice => slice.digest = sha256Hash.sha256 [5]) = some 1 ∧
      (lostSystem sha256Hash).store.dedup.refcount (sha256Hash.sha256 [5]) = 1 ∧
      (finalState result).store.dedup.refcount (sha256Hash.sha256 [5]) = 1 := by
  have hbefore := run_calls (sampleEnv sha256Hash) Anything (sampleSystem sha256Hash [])
    [.createFamily, .publish (sampleDescriptor 7 1 1) [5]]
  exact ⟨⟨_, hbefore.extend (.outside trivial)⟩, by decide +kernel⟩

/-! ## New contents -/

/-- The digests among the chunks that have no entry. -/
def newDigests (t : DedupTable) (slices : List ChunkSlice) : Finset Digest :=
  (slices.map ChunkSlice.digest).toFinset.filter fun d => t.find d = none

/-- The length of the first chunk with the digest. -/
def chunkLength (slices : List ChunkSlice) (d : Digest) : Nat :=
  match slices.find? fun slice => slice.digest = d with
  | none => 0
  | some slice => slice.bytes.length

/-- The bytes of the chunks that have no entry, each content taken once. -/
def newBytes (t : DedupTable) (slices : List ChunkSlice) : Nat :=
  ∑ d ∈ newDigests t slices, chunkLength slices d

section New

variable {t t' : DedupTable} {slice : ChunkSlice}

theorem mem_new_digests {slices : List ChunkSlice} {d : Digest} :
    d ∈ newDigests t slices ↔ (∃ slice ∈ slices, slice.digest = d) ∧ t.find d = none := by
  simp [newDigests]

theorem chunk_length_cons_ne {rest : List ChunkSlice} {d : Digest} (h : slice.digest ≠ d) :
    chunkLength (slice :: rest) d = chunkLength rest d := by
  rw [chunkLength, List.find?_cons_of_neg (by simpa using h), chunkLength]

/-- A chunk with an entry adds nothing. -/
theorem new_cons_present (rest : List ChunkSlice) (hfind : t.find slice.digest ≠ none)
    (hsame : ∀ d, t'.find d = none ↔ t.find d = none) :
    newDigests t (slice :: rest) = newDigests t' rest ∧
      newBytes t (slice :: rest) = newBytes t' rest := by
  have hdigests : newDigests t (slice :: rest) = newDigests t' rest := by
    ext d
    rw [mem_new_digests, mem_new_digests, hsame, List.exists_mem_cons_iff, or_and_right,
      or_iff_right]
    rintro ⟨rfl, hnone⟩
    exact hfind hnone
  refine ⟨hdigests, ?_⟩
  unfold newBytes
  rw [hdigests]
  refine Finset.sum_congr rfl fun d hd => chunk_length_cons_ne ?_
  rintro rfl
  exact hfind ((hsame _).mp (mem_new_digests.mp hd).2)

/-- A chunk without an entry adds its content; from then on it has one. -/
theorem new_cons_absent (rest : List ChunkSlice) (hfind : t.find slice.digest = none)
    (hentered : ∀ d, t'.find d = none ↔ t.find d = none ∧ d ≠ slice.digest) :
    (newDigests t (slice :: rest)).card = (newDigests t' rest).card + 1 ∧
      newBytes t (slice :: rest) = newBytes t' rest + slice.bytes.length := by
  have hdigests : newDigests t (slice :: rest) = insert slice.digest (newDigests t' rest) := by
    ext d
    rw [Finset.mem_insert, mem_new_digests, mem_new_digests, hentered, List.exists_mem_cons_iff]
    constructor
    · rintro ⟨rfl | hmem, hnone⟩
      · exact .inl rfl
      · by_cases hd : d = slice.digest
        · exact .inl hd
        · exact .inr ⟨hmem, hnone, hd⟩
    · rintro (rfl | ⟨hmem, hnone, -⟩)
      · exact ⟨.inl rfl, hfind⟩
      · exact ⟨.inr hmem, hnone⟩
  have hnew : slice.digest ∉ newDigests t' rest := fun hmem =>
    ((hentered _).mp (mem_new_digests.mp hmem).2).2 rfl
  unfold newBytes
  rw [hdigests]
  refine ⟨Finset.card_insert_of_notMem hnew, ?_⟩
  rw [Finset.sum_insert hnew, Nat.add_comm]
  congr 1
  · refine Finset.sum_congr rfl fun d hd => chunk_length_cons_ne ?_
    rintro rfl
    exact hnew hd
  · rw [chunkLength, List.find?_cons_of_pos (by simp)]

theorem card_new_digests_le (t : DedupTable) (slices : List ChunkSlice) :
    (newDigests t slices).card ≤ slices.length :=
  calc (newDigests t slices).card ≤ (slices.map ChunkSlice.digest).toFinset.card :=
        Finset.card_filter_le _ _
    _ ≤ (slices.map ChunkSlice.digest).length := List.toFinset_card_le _
    _ = slices.length := List.length_map _

/-- Contents that are taken once are not longer than all chunks together. -/
theorem sum_chunk_length_le (digests : Finset Digest) (slices : List ChunkSlice) :
    ∑ d ∈ digests, chunkLength slices d ≤ (slices.map fun slice => slice.bytes.length).sum := by
  induction slices with
  | nil => exact Nat.le_of_eq (Finset.sum_eq_zero fun _ _ => rfl)
  | cons slice rest ih =>
      have hfirst : ∀ d, chunkLength (slice :: rest) d ≤
          (if slice.digest = d then slice.bytes.length else 0) + chunkLength rest d := by
        intro d
        split
        · next hd =>
            rw [chunkLength, List.find?_cons_of_pos (by simpa using hd)]
            exact Nat.le_add_right _ _
        · next hd => rw [chunk_length_cons_ne hd, Nat.zero_add]
      have hone : ∑ d ∈ digests, (if slice.digest = d then slice.bytes.length else 0) ≤
          slice.bytes.length := by
        rw [Finset.sum_ite_eq]
        split
        · exact Nat.le_refl _
        · exact Nat.zero_le _
      calc ∑ d ∈ digests, chunkLength (slice :: rest) d
          ≤ ∑ d ∈ digests, ((if slice.digest = d then slice.bytes.length else 0) +
              chunkLength rest d) := Finset.sum_le_sum fun d _ => hfirst d
        _ ≤ slice.bytes.length + (rest.map fun slice => slice.bytes.length).sum := by
            rw [Finset.sum_add_distrib]
            exact Nat.add_le_add hone ih
        _ = _ := by rw [List.map_cons, List.sum_cons]

end New

/-- Every entry of the dedup table has an object that hashes to its digest. -/
def Undamaged (H : StreamHash) (view : ObjectView W) (s : System W) : Prop :=
  ∀ d, s.store.dedup.find d ≠ none → ∃ x, view.objects s.world (blobKey d) = some x ∧ H.sha256 x = d

/-- The bytes of the table are the sum over its entries, wrapped around. -/
theorem unique_physical_bytes_eq (t : DedupTable) : t.uniquePhysicalBytes =
    UInt64.ofNat (t.entries.sumBy fun _ e => e.physicalSize.toNat) :=
  UnorderedMap.foldl_values_eq_sum_by t.entries DedupEntry.physicalSize

/-- The bytes depend on the sizes of the entries only. -/
theorem unique_physical_bytes_congr {t t' : DedupTable}
    (h : ∀ d, (t'.find d).map DedupEntry.physicalSize = (t.find d).map DedupEntry.physicalSize) :
    t'.uniquePhysicalBytes = t.uniquePhysicalBytes := by
  rw [unique_physical_bytes_eq, unique_physical_bytes_eq]
  congr 1
  exact UnorderedMap.sum_by_eq_of_map_find_eq h (g := fun _ size => size.toNat) fun _ _ => rfl

/-- A new entry adds its size. -/
theorem unique_physical_bytes_entered {t t' : DedupTable} {d : Digest} {e : DedupEntry}
    (hnone : t.find d = none) (h : ∀ d', t'.find d' = if d' = d then some e else t.find d') :
    t'.uniquePhysicalBytes = t.uniquePhysicalBytes + e.physicalSize := by
  have hassigned : t'.uniquePhysicalBytes =
      DedupTable.uniquePhysicalBytes ⟨t.entries.assign d e⟩ := by
    refine unique_physical_bytes_congr fun d' => ?_
    rw [h]
    exact congrArg _ (UnorderedMap.find_assign t.entries d d' e).symm
  rw [hassigned, unique_physical_bytes_eq, unique_physical_bytes_eq]
  show UInt64.ofNat ((t.entries.assign d e).sumBy _) = _
  rw [UnorderedMap.sum_by_assign_fresh hnone, UInt64.ofNat_add, UInt64.ofNat_toNat,
    UInt64.add_comm]

section Rounds

variable {H : StreamHash} {b : IBackend W} {view : ObjectView W} {slice : ChunkSlice}
  {slices : List ChunkSlice} {p q : Publishing W}

/-- A round over undamaged objects that finds an entry shares it. -/
def SharedBy (slice : ChunkSlice) (p q : Publishing W) : Prop :=
  p.system.store.dedup.find slice.digest ≠ none ∧
    (∀ d, q.system.store.dedup.find d = none ↔ p.system.store.dedup.find d = none) ∧
    q.system.store.dedup.uniquePhysicalBytes = p.system.store.dedup.uniquePhysicalBytes ∧
    q.locals = { p.locals with dedupHits := p.locals.dedupHits + 1 }

/-- A round that finds no entry writes the chunk and enters it. -/
def WrittenBy (slice : ChunkSlice) (p q : Publishing W) : Prop :=
  p.system.store.dedup.find slice.digest = none ∧
    (∀ d, q.system.store.dedup.find d = none ↔
      p.system.store.dedup.find d = none ∧ d ≠ slice.digest) ∧
    q.system.store.dedup.uniquePhysicalBytes =
      p.system.store.dedup.uniquePhysicalBytes + byteSize slice.bytes ∧
    q.locals = p.locals.wrote slice

theorem Acquired.shared_or_written {blobId : BlobId} (hb : b.Lawful H view)
    (h : Acquired b slice p blobId q) (hp : Undamaged H view p.system) :
    SharedBy slice p q ∨ WrittenBy slice p q := by
  cases h with
  | @reused e w t hfind _ hadd =>
      have hfinds := (DedupTable.add_reference_cases hfind hadd).2
      refine .inl ⟨by simp [hfind], fun d => ?_, unique_physical_bytes_congr fun d => ?_, rfl⟩
      · rw [hfinds d]
        split
        · next hd => simp [hd, hfind]
        · rfl
      · rw [hfinds d]
        split
        · next hd => simp [hd, hfind]
        · rfl
  | written hmissed _ _ hinsert =>
      cases hmissed with
      | absent hfind =>
          obtain ⟨-, hfinds⟩ | ⟨_, hsome, -⟩ := DedupTable.insert_cases hinsert
          · refine .inr ⟨hfind, fun d => ?_, unique_physical_bytes_entered hfind hfinds, rfl⟩
            rw [hfinds d]
            split
            · next hd => simp [hd]
            · next hd => simp [hd]
          · rw [hfind] at hsome
            cases hsome
      | damaged hfind _ hverify hanswer =>
          have hgood := ((hb.verify _ _ _).of_ok hverify).2.mpr (hp _ (by simp [hfind]))
          exact absurd hgood hanswer

/-- A round over undamaged objects leaves undamaged objects. -/
theorem Acquired.undamaged {blobId : BlobId} (hb : b.Lawful H view)
    (h : Acquired b slice p blobId q) (hok : SliceOk H slice) (hp : Undamaged H view p.system) :
    Undamaged H view q.system := by
  intro d hfind
  by_cases hd : d = slice.digest
  · subst hd
    cases h with
    | reused _ hverify _ =>
        obtain ⟨hsame, hgood⟩ := (hb.verify _ _ _).of_ok hverify
        show ∃ x, view.objects _ _ = some x ∧ _
        rw [hsame]
        exact hgood.mp rfl
    | written _ hput hcommit _ =>
        exact ⟨slice.bytes, objects_update_self (objects_of_put_commit hb hput hcommit),
          hok.digest_eq.symm⟩
  · have hother := h.raised_elsewhere hb hd
    obtain ⟨x, hobject, hx⟩ := hp d fun hnone => hfind (hother.find_none_iff.mpr hnone)
    exact ⟨x, hother.object.trans hobject, hx⟩

/-- Hits, misses and written bytes of some rounds, and the growth of the table. -/
structure Accounted (slices : List ChunkSlice) (p q : Publishing W) : Prop where
  hits : q.locals.dedupHits + UInt64.ofNat (newDigests p.system.store.dedup slices).card =
    p.locals.dedupHits + UInt64.ofNat slices.length
  misses : q.locals.dedupMisses =
    p.locals.dedupMisses + UInt64.ofNat (newDigests p.system.store.dedup slices).card
  written : q.locals.writeSize =
    p.locals.writeSize + UInt64.ofNat (newBytes p.system.store.dedup slices)
  growth : q.system.store.dedup.uniquePhysicalBytes =
    p.system.store.dedup.uniquePhysicalBytes +
      UInt64.ofNat (newBytes p.system.store.dedup slices)

/-- A count in words and one more count. -/
theorem add_of_nat_add (x : UInt64) (m n : Nat) :
    x + UInt64.ofNat m + UInt64.ofNat n = x + UInt64.ofNat (n + m) := by
  rw [UInt64.ofNat_add, UInt64.add_assoc, UInt64.add_comm (UInt64.ofNat m)]

theorem Accounted.after_shared {rest : List ChunkSlice} {p' : Publishing W}
    (hrest : Accounted rest q p') (h : SharedBy slice p q) : Accounted (slice :: rest) p p' := by
  obtain ⟨hfind, hsame, hunique, hlocals⟩ := h
  obtain ⟨hhits, hmisses, hwritten, hgrowth⟩ := hrest
  obtain ⟨hdigests, hbytes⟩ := new_cons_present rest hfind hsame
  rw [hlocals] at hhits hmisses hwritten
  rw [hunique] at hgrowth
  refine ⟨?_, by rw [hdigests, hmisses], by rw [hbytes, hwritten], by rw [hbytes, hgrowth]⟩
  rw [hdigests, hhits, List.length_cons]
  exact add_of_nat_add p.locals.dedupHits 1 rest.length

theorem Accounted.after_written {rest : List ChunkSlice} {p' : Publishing W}
    (hrest : Accounted rest q p') (h : WrittenBy slice p q) : Accounted (slice :: rest) p p' := by
  obtain ⟨hfind, hentered, hunique, hlocals⟩ := h
  obtain ⟨hhits, hmisses, hwritten, hgrowth⟩ := hrest
  obtain ⟨hcard, hbytes⟩ := new_cons_absent rest hfind hentered
  rw [hlocals] at hhits hmisses hwritten
  rw [hunique] at hgrowth
  refine ⟨?_, ?_, ?_, ?_⟩
  · rw [hcard, List.length_cons, UInt64.ofNat_add, UInt64.ofNat_add, ← UInt64.add_assoc, hhits,
      UInt64.add_assoc]
    rfl
  · rw [hcard, hmisses]
    exact add_of_nat_add p.locals.dedupMisses 1 _
  · rw [hbytes, hwritten]
    exact add_of_nat_add p.locals.writeSize slice.bytes.length _
  · rw [hbytes, hgrowth]
    exact add_of_nat_add p.system.store.dedup.uniquePhysicalBytes slice.bytes.length _

/-- The chunk loop is accounted for. -/
theorem Rounds.accounted (hb : b.Lawful H view) (h : Rounds b slices p q)
    (hok : ∀ slice ∈ slices, SliceOk H slice) (hp : Undamaged H view p.system) :
    Accounted slices p q := by
  induction h with
  | nil p =>
      have hnone : newDigests p.system.store.dedup [] = ∅ := rfl
      have hzero : newBytes p.system.store.dedup [] = 0 := rfl
      constructor <;> simp [hnone, hzero]
  | @cons slice rest p q p' blobId hacquired hrest ih =>
      have hq := hacquired.undamaged hb (hok slice List.mem_cons_self) hp
      have hlater : Accounted rest (recordChunk slice blobId q) p' :=
        ih (fun x hx => hok x (List.mem_cons_of_mem _ hx)) hq
      -- Recording the chunk touches neither the table nor the counts.
      have hlater' : Accounted rest q p' :=
        ⟨hlater.hits, hlater.misses, hlater.written, hlater.growth⟩
      rcases hacquired.shared_or_written hb hp with hshared | hwritten
      · exact hlater'.after_shared hshared
      · exact hlater'.after_written hwritten

end Rounds

section Slices

variable {H : StreamHash} {data : Bytes} {chunkSize : UInt64} {slices : List ChunkSlice}

theorem chunk_stream_lengths (h : chunkStream H data chunkSize = .ok slices) :
    (slices.map fun slice => slice.bytes.length).sum = data.length := by
  rw [← chunk_stream_flatten h, List.length_flatten, List.map_map]
  rfl

/-- No slice is empty, so there are not more of them than bytes. -/
theorem chunk_stream_count_le (h : chunkStream H data chunkSize = .ok slices) :
    slices.length ≤ data.length := by
  rw [← chunk_stream_lengths h, ← List.length_map fun slice : ChunkSlice => slice.bytes.length]
  refine List.length_le_sum_of_one_le _ fun n hn => ?_
  obtain ⟨slice, hslice, rfl⟩ := List.mem_map.mp hn
  exact List.length_pos_iff.mpr (chunk_stream_slice_ok h hslice).nonempty

end Slices

/-- Publication writes each new content once. The entries of the table have good objects in a
lawful primary backend. If `publish` returns, then every chunk was a hit or a miss, the misses are
the distinct digests that had no entry, the unique bytes are the bytes of these contents and the
growth of the table, and the rest of the data was shared. -/
theorem publish_writes_new_content_once {env : Env} {b : IBackend W} {view : ObjectView W}
    (hb : b.Lawful env.hash view) {s s' : System W}
    (hprimary : s.store.backends.find s.store.primaryBackendId = some b)
    (hundamaged : Undamaged env.hash view s) {descriptor : CheckpointDescriptor} {data : Bytes}
    (hdata : data.length < 2 ^ 64) {r : PublishedCheckpoint} {slices : List ChunkSlice}
    (hpublish : publish env descriptor data s = .ok r s')
    (hslices : chunkStream env.hash data s.store.options.chunkSize = .ok slices) :
    r.dedupHits.toNat + r.dedupMisses.toNat = slices.length ∧
      r.dedupMisses.toNat = (newDigests s.store.dedup slices).card ∧
      r.uniquePhysicalBytes.toNat = newBytes s.store.dedup slices ∧
      s'.store.dedup.uniquePhysicalBytes =
        s.store.dedup.uniquePhysicalBytes + r.uniquePhysicalBytes ∧
      r.uniquePhysicalBytes.toNat + r.deduplicatedBytes.toNat = data.length := by
  obtain ⟨underlay, slices', p, w, hadmitted, hslices', hrounds, -, -, rfl, rfl⟩ :=
    (post_publish_result env descriptor data s).of_ok hpublish
  obtain rfl := Except.ok.inj (hslices.symm.trans hslices')
  obtain rfl := Option.some.inj (hprimary.symm.trans hadmitted.backend)
  have hok : ∀ slice ∈ slices, SliceOk env.hash slice := fun _ => chunk_stream_slice_ok hslices
  obtain ⟨hhits, hmisses, hwritten, hgrowth⟩ := hrounds.accounted hb hok hundamaged
  have hcount := chunk_stream_count_le hslices
  have hcard := card_new_digests_le s.store.dedup slices
  have hbytes : newBytes s.store.dedup slices ≤ data.length :=
    chunk_stream_lengths hslices ▸ sum_chunk_length_le _ slices
  -- The counters start at zero, and none of the sums reaches the width of a word.
  have hfits : ∀ n ≤ data.length, (UInt64.ofNat n).toNat = n := fun n hn =>
    UInt64.toNat_ofNat_of_lt' (Nat.lt_of_le_of_lt hn hdata)
  have hmisses' : p.locals.dedupMisses.toNat = (newDigests s.store.dedup slices).card :=
    (congrArg UInt64.toNat (hmisses.trans (UInt64.zero_add _))).trans
      (hfits _ (Nat.le_trans hcard hcount))
  have hwritten' : p.locals.writeSize = UInt64.ofNat (newBytes s.store.dedup slices) :=
    hwritten.trans (UInt64.zero_add _)
  have hsize : p.locals.writeSize.toNat = newBytes s.store.dedup slices := by
    rw [hwritten', hfits _ hbytes]
  have hdataSize : (byteSize data).toNat = data.length := byte_size_to_nat hdata
  refine ⟨?_, hmisses', hsize, ?_, ?_⟩
  · have hsum := congrArg UInt64.toNat hhits
    change (p.locals.dedupHits + UInt64.ofNat (newDigests s.store.dedup slices).card).toNat =
      (0 + UInt64.ofNat slices.length).toNat at hsum
    rw [UInt64.zero_add, UInt64.toNat_add, hfits _ (by omega), hfits _ hcount] at hsum
    have hword := p.locals.dedupHits.toNat_lt
    show p.locals.dedupHits.toNat + p.locals.dedupMisses.toNat = _
    omega
  · show p.system.store.dedup.uniquePhysicalBytes = _ + p.locals.writeSize
    rw [hgrowth, hwritten']
    rfl
  · show p.locals.writeSize.toNat + (if p.locals.writeSize ≤ byteSize data then
      byteSize data - p.locals.writeSize else 0).toNat = _
    have hle : p.locals.writeSize ≤ byteSize data := by
      rw [UInt64.le_iff_toNat_le]
      omega
    rw [if_pos hle, UInt64.toNat_sub_of_le _ _ hle]
    omega

/-- Two new contents, one of them twice: one hit, two misses, two bytes written and one shared. -/
theorem publish_writes_new_content_once_mixed :
    ∃ r s', publish (sampleEnv tagHash) (sampleDescriptor 7 1 3) [0, 1, 1]
        (sampleRun tagHash [] [.createFamily]) = .ok r s' ∧
      r.dedupHits.toNat + r.dedupMisses.toNat = 3 ∧ r.dedupMisses.toNat = 2 ∧
      r.uniquePhysicalBytes.toNat = 2 ∧
      r.uniquePhysicalBytes.toNat + r.deduplicatedBytes.toNat = 3 := by
  have hempty : (sampleRun tagHash [] [.createFamily]).store.dedup = {} := rfl
  have hundamaged : Undamaged tagHash MemoryWorld.view (sampleRun tagHash [] [.createFamily]) := by
    intro d hd
    rw [hempty] at hd
    exact absurd rfl hd
  have hslices : chunkStream tagHash [0, 1, 1]
      (sampleRun tagHash [] [.createFamily]).store.options.chunkSize =
      .ok (chunkLoop tagHash 1 3 0 [0, 1, 1]) := rfl
  have hreturns : thrown (publish (sampleEnv tagHash) (sampleDescriptor 7 1 3) [0, 1, 1]
      (sampleRun tagHash [] [.createFamily])) = none := by
    decide +kernel
  cases hpublish : publish (sampleEnv tagHash) (sampleDescriptor 7 1 3) [0, 1, 1]
      (sampleRun tagHash [] [.createFamily]) with
  | error e s' => simp [hpublish] at hreturns
  | ok r s' =>
      obtain ⟨hchunks, hmisses, hunique, -, hshared⟩ := publish_writes_new_content_once
        (memory_backend_lawful tagHash) rfl hundamaged (by decide) hpublish hslices
      rw [hempty] at hmisses hunique
      exact ⟨r, s', rfl, hchunks, hmisses.trans (by decide +kernel),
        hunique.trans (by decide +kernel), hshared⟩

end CheckpointStore
