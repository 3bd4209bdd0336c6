import CheckpointStore.Safety.References

/-!
# The dedup table and the objects of the backend

Over a lawful backend, `Stocked` relates three things: the references that some records need,
the counts of the dedup table, and the objects. Every needed digest is counted, and every entry
of the table has its object, except for entries that a rollback left behind: those are still
counted, but nothing needs them. Each transition of a store keeps this (`Transition.supplied`).
-/

namespace CheckpointStore

open Foundation Foundation.Procedure

variable {W : Type}

/-- The object under the key of a digest hashes to it, has the given size, and is one of the
contents `C`. -/
def HeldBy (H : StreamHash) (view : ObjectView W) (C : Bytes → Prop) (w : W) (d : Digest)
    (size : UInt64) : Prop :=
  ∃ x, view.objects w (blobKey d) = some x ∧ H.sha256 x = d ∧ x.length = size.toNat ∧ C x

/-- The table counts what is needed and its entries have their objects. An entry without an
object is counted but not needed. -/
structure Stocked (H : StreamHash) (view : ObjectView W) (C : Bytes → Prop)
    (needed : Digest → Nat) (w : W) (t : DedupTable) : Prop where
  counted : ∀ d, needed d ≤ (t.refcount d).toNat
  held : ∀ d e, t.find d = some e → HeldBy H view C w d e.physicalSize ∨
    (view.objects w (blobKey d) = none ∧ e.refcount ≠ 0 ∧ needed d = 0)

/-- Whether an entry has its object depends on that object only. -/
theorem held_by_congr {H : StreamHash} {view : ObjectView W} {C : Bytes → Prop} {w w' : W}
    {d : Digest} (h : view.objects w' (blobKey d) = view.objects w (blobKey d)) (size : UInt64) :
    HeldBy H view C w' d size ↔ HeldBy H view C w d size := by
  unfold HeldBy
  rw [h]

/-- One more reference to a digest. -/
def oneMore (d : Digest) (needed : Digest → Nat) (d' : Digest) : Nat :=
  needed d' + if d' = d then 1 else 0

/-! ## The objects under a lawful backend -/

section Objects

variable {H : StreamHash} {b : IBackend W} {view : ObjectView W}

/-- A changed object is the object of one digest only. -/
theorem objects_update_ne {w w' : W} {d d' : Digest} {value : Option Bytes}
    (h : view.objects w' = Function.update (view.objects w) (blobKey d) value) (hne : d' ≠ d) :
    view.objects w' (blobKey d') = view.objects w (blobKey d') := by
  rw [h, Function.update_of_ne fun hkey => hne (blob_key_injective hkey)]

theorem objects_update_self {w w' : W} {d : Digest} {value : Option Bytes}
    (h : view.objects w' = Function.update (view.objects w) (blobKey d) value) :
    view.objects w' (blobKey d) = value := by
  rw [h, Function.update_self]

/-- A miss changes no object. -/
theorem Missed.same (hb : b.Lawful H view) {slice : ChunkSlice} {s s' : System W}
    (h : Missed b slice s s') : view.Same s.world s'.world := by
  cases h with
  | absent => exact ObjectView.Same.refl _
  | damaged _ _ hverify => exact ((hb.verify _ _ _).of_ok hverify).1

/-- A chunk that could not be stored has changed no object. -/
theorem AcquireFailed.same (hb : b.Lawful H view) {slice : ChunkSlice} {s s' : System W}
    (h : AcquireFailed b slice s s') : view.Same s.world s'.world := by
  cases h with
  | lookup => exact ObjectView.Same.refl _
  | verify _ hverify => exact (hb.verify _ _ _).of_error hverify
  | reference hverify => exact ((hb.verify _ _ _).of_ok hverify).1
  | putTemp hmissed hput => exact (hmissed.same hb).trans ((hb.put_temp _ _ _).of_error hput)
  | commit hmissed hput hcommit =>
      have hstaged := ((hb.put_temp _ _ _).of_ok hput).1
      exact ((hmissed.same hb).trans hstaged).trans ((hb.commit _ _).of_error hcommit)

/-- Staging and committing stores exactly the given bytes. -/
theorem objects_of_put_commit (hb : b.Lawful H view) {key : BackendKey} {data : Bytes}
    {w w₁ w₂ : W} (hput : b.putTemp key data w = .ok () w₁)
    (hcommit : b.commit key w₁ = .ok () w₂) :
    view.objects w₂ = Function.update (view.objects w) key (some data) := by
  obtain ⟨hsame, hstaged⟩ := (hb.put_temp _ _ _).of_ok hput
  obtain ⟨data', hstaged', hobjects⟩ := (hb.commit _ _).of_ok hcommit
  rw [hstaged] at hstaged'
  cases hstaged'
  rw [hobjects, hsame]

theorem Reads.same (hb : b.Lawful H view) {w w' : W} (h : Reads b w w') : view.Same w w' :=
  h.keeps hb.read

/-- Whatever stopped a publication has changed no object. -/
theorem Stopped.same (hb : b.Lawful H view) {rest : List ChunkSlice} {s s' : System W}
    (h : Stopped b rest s s') : view.Same s.world s'.world := by
  cases h with
  | atChunk _ hfailed => exact hfailed.same hb
  | afterLoop _ hreads => exact hreads.same hb

/-- After removals an object is what it was, or it is gone and its key was removed. -/
theorem Removals.objects (hb : b.Lawful H view) {keys : List BackendKey} {w w' : W}
    (h : Removals b keys w w') (key : BackendKey) :
    view.objects w' key = view.objects w key ∨
      (key ∈ keys ∧ view.objects w' key = none) := by
  induction h with
  | nil w => exact Or.inl rfl
  | @cons removed rest w w' _ ih =>
      have hstep : view.objects (finalState (b.remove removed w)) key = view.objects w key ∨
          (key = removed ∧ view.objects (finalState (b.remove removed w)) key = none) := by
        cases hrun : b.remove removed w with
        | error exn w₁ => exact Or.inl (congrFun ((hb.remove _ _).of_error hrun).1 key)
        | ok answer w₁ =>
            have hobjects := (hb.remove _ _).of_ok hrun
            cases answer with
            | false => exact Or.inl (congrFun hobjects key)
            | true =>
                show view.objects w₁ key = _ ∨ _ ∧ view.objects w₁ key = none
                by_cases hkey : key = removed
                · exact Or.inr ⟨hkey, by rw [hobjects]; simp [hkey]⟩
                · exact Or.inl (by rw [hobjects]; simp [hkey])
      rcases ih with hsame | ⟨hin, hnone⟩
      · rcases hstep with hsame' | ⟨hkey, hnone⟩
        · exact Or.inl (hsame.trans hsame')
        · exact Or.inr ⟨by simp [hkey], hsame.trans hnone⟩
      · exact Or.inr ⟨List.mem_cons_of_mem _ hin, hnone⟩

/-- Once a call has answered that it removed the object, the outcome is that it was removed. -/
theorem RemoveCalls.answered {store : Store W} {key : BackendKey} {rids : List ReplicaId}
    {before after : Bool} {w w' : W} (h : RemoveCalls store key rids before w after w')
    (hbefore : before = true) : after = true := by
  induction h with
  | done => exact hbefore
  | skip _ _ ih => exact ih hbefore
  | call _ _ _ _ ih => exact ih (by rw [hbefore, Bool.true_or])

/-- The calls for one blob remove its object exactly when one of them says so. -/
theorem RemoveCalls.objects (hb : b.Lawful H view) {store : Store W} {key : BackendKey}
    {rids : List ReplicaId} {before after : Bool} {w w' : W}
    (hbackends : ∀ id b', store.backends.find id = some b' → b' = b)
    (h : RemoveCalls store key rids before w after w')
    (hbefore : before = true → view.objects w key = none) :
    view.objects w' =
      if after then Function.update (view.objects w) key none else view.objects w := by
  induction h with
  | done before w =>
      cases before with
      | false => rfl
      | true =>
          rw [if_pos rfl, ← hbefore rfl]
          exact (Function.update_eq_self key _).symm
  | skip _ _ ih => exact ih hbefore
  | @call rid rest rd b' before removed after w w₁ w' _ hbackend hremove hrest ih =>
      obtain rfl := hbackends _ _ hbackend
      have hobjects := (hb.remove _ _).of_ok hremove
      cases removed with
      | false =>
          rw [if_neg (by simp)] at hobjects
          rw [ih (by simpa [hobjects] using hbefore), hobjects]
      | true =>
          rw [if_pos rfl] at hobjects
          have hfinal : after = true := hrest.answered (Bool.or_true _)
          rw [ih (fun _ => by rw [hobjects, Function.update_self]), hfinal, if_pos rfl, if_pos rfl,
            hobjects, Function.update_idem]

end Objects

/-! ## The steps of a publication -/

section Steps

variable {H : StreamHash} {view : ObjectView W} {C : Bytes → Prop} {needed : Digest → Nat}
  {w w' : W} {t t' : DedupTable} {d : Digest}

/-- The same objects are the same stock. -/
theorem Stocked.of_same (h : Stocked H view C needed w t) (hsame : view.Same w w') :
    Stocked H view C needed w' t where
  counted := h.counted
  held d e hfind := by
    rw [held_by_congr (congrFun hsame _), hsame]
    exact h.held d e hfind

/-- Sharing an object that is there counts one more reference. -/
theorem Stocked.reuse (h : Stocked H view C needed w t) {e : DedupEntry} {added : Bool}
    (hfind : t.find d = some e) (hpresent : view.objects w (blobKey d) ≠ none)
    (hadd : t.addReference d = .ok (added, t')) :
    Stocked H view C (oneMore d needed) w t' where
  counted d' := by
    rw [refcount_add_reference hfind hadd d', oneMore]
    exact Nat.add_le_add_right (h.counted d') _
  held d' e' hfind' := by
    obtain ⟨_, hfinds⟩ := DedupTable.add_reference_cases hfind hadd
    rw [hfinds d'] at hfind'
    by_cases hd : d' = d
    · subst hd
      rw [if_pos rfl] at hfind'
      cases hfind'
      rcases h.held d' e hfind with hheld | ⟨hnone, _⟩
      · exact Or.inl hheld
      · exact absurd hnone hpresent
    · rw [if_neg hd] at hfind'
      simpa [oneMore, hd] using h.held d' e' hfind'

/-- Nothing needs a digest whose entry is absent or has no good object. -/
theorem Stocked.not_needed (h : Stocked H view C needed w t)
    (hmiss : ∀ e, t.find d = some e →
      ¬ ∃ x, view.objects w (blobKey d) = some x ∧ H.sha256 x = d) : needed d = 0 := by
  cases hfind : t.find d with
  | none =>
      have hcounted := h.counted d
      rw [DedupTable.refcount_of_find_none hfind] at hcounted
      exact Nat.le_zero.mp hcounted
  | some e =>
      rcases h.held d e hfind with ⟨x, hobject, hhash, _⟩ | ⟨_, _, hneeded⟩
      · exact absurd ⟨x, hobject, hhash⟩ (hmiss e hfind)
      · exact hneeded

/-- Writing a missing object and entering it counts one more reference: a fresh entry has count
one, and an entry that was left behind is counted already. -/
theorem Stocked.write (h : Stocked H view C needed w t) {x : Bytes} {size : UInt64} {id : BlobId}
    {integrity : IntegrityState} {generation : BlobGeneration} {added : Bool}
    (hmiss : ∀ e, t.find d = some e →
      ¬ ∃ x, view.objects w (blobKey d) = some x ∧ H.sha256 x = d)
    (hhash : H.sha256 x = d) (hsize : x.length = size.toNat) (hcontent : C x)
    (hobjects : view.objects w' = Function.update (view.objects w) (blobKey d) (some x))
    (hinsert : t.insert id d size integrity generation = .ok (added, t')) :
    Stocked H view C (oneMore d needed) w' t' := by
  have hneeded := h.not_needed hmiss
  have hself : HeldBy H view C w' d size :=
    ⟨x, objects_update_self hobjects, hhash, hsize, hcontent⟩
  have hother : ∀ d' e, d' ≠ d → t.find d' = some e → HeldBy H view C w' d' e.physicalSize ∨
      (view.objects w' (blobKey d') = none ∧ e.refcount ≠ 0 ∧ oneMore d needed d' = 0) := by
    intro d' e hd hfind
    have hsame := objects_update_ne hobjects hd
    rw [held_by_congr hsame, hsame]
    simpa [oneMore, hd] using h.held d' e hfind
  rcases DedupTable.insert_cases hinsert with ⟨hfind, hfinds⟩ | ⟨e, hfind, hesize, rfl⟩
  · refine ⟨fun d' => ?_, fun d' e' hfind' => ?_⟩
    · rw [refcount_insert_absent hfind hinsert d', oneMore]
      exact Nat.add_le_add_right (h.counted d') _
    · rw [hfinds d'] at hfind'
      by_cases hd : d' = d
      · subst hd
        rw [if_pos rfl] at hfind'
        cases hfind'
        exact Or.inl hself
      · rw [if_neg hd] at hfind'
        exact hother d' e' hd hfind'
  · refine ⟨fun d' => ?_, fun d' e' hfind' => ?_⟩
    · by_cases hd : d' = d
      · subst hd
        have hpositive : e.refcount ≠ 0 := by
          rcases h.held d' e hfind with ⟨y, hobject, hhash', _⟩ | ⟨_, hpositive, _⟩
          · exact absurd ⟨y, hobject, hhash'⟩ (hmiss e hfind)
          · exact hpositive
        have hnat : e.refcount.toNat ≠ 0 := fun h0 => hpositive (UInt64.toNat_inj.mp h0)
        rw [DedupTable.refcount_of_find hfind, oneMore, hneeded, if_pos rfl]
        omega
      · simpa [oneMore, hd] using h.counted d'
    · by_cases hd : d' = d
      · subst hd
        rw [hfind] at hfind'
        cases hfind'
        rw [hesize]
        exact Or.inl hself
      · exact hother d' e' hd hfind'

/-- What rolling back does to one entry: nothing if its digest was not written, and otherwise
it is dropped or still counted. -/
theorem find_rolled_back (digests : List Digest) (t : DedupTable) {d : Digest} {e : DedupEntry}
    (hfind : (rolledBack digests t).find d = some e) :
    ∃ e₀, t.find d = some e₀ ∧ e₀.physicalSize = e.physicalSize ∧
      (d ∉ digests ∧ e₀ = e ∨ d ∈ digests ∧ e.refcount ≠ 0) := by
  unfold rolledBack at hfind
  induction digests generalizing t with
  | nil => exact ⟨e, hfind, rfl, Or.inl ⟨by simp, rfl⟩⟩
  | cons d₁ rest ih =>
      rw [List.foldl_cons] at hfind
      obtain ⟨e₁, hfind₁, hsize, hcases⟩ := ih _ hfind
      -- One release followed by dropping an orphan.
      rw [rollbackDigest, DedupTable.find_release_until_orphan] at hfind₁
      split at hfind₁
      · simp at hfind₁
      · next hkept =>
          have hcount₁ := DedupTable.refcount_of_find hfind₁
          rw [DedupTable.find_release_reference] at hfind₁
          by_cases hd : d = d₁
          · subst hd
            rw [if_pos rfl] at hfind₁
            obtain ⟨e₀, hfind₀, he₀⟩ := Option.map_eq_some_iff.mp hfind₁
            have hpositive : e₁.refcount ≠ 0 := by
              rw [← hcount₁]
              exact fun h0 => hkept ⟨rfl, h0⟩
            refine ⟨e₀, hfind₀, by rw [← hsize, ← he₀], Or.inr ⟨by simp, ?_⟩⟩
            rcases hcases with ⟨_, rfl⟩ | ⟨_, hpositive'⟩
            · exact hpositive
            · exact hpositive'
          · rw [if_neg hd] at hfind₁
            refine ⟨e₁, hfind₁, hsize, ?_⟩
            simpa [hd] using hcases

/-- A digest that was not written keeps its entry through a rollback. -/
theorem find_rolled_back_of_not_mem {digests : List Digest} {t : DedupTable} {d : Digest}
    (hd : d ∉ digests) : (rolledBack digests t).find d = t.find d := by
  unfold rolledBack
  induction digests generalizing t with
  | nil => rfl
  | cons d₁ rest ih =>
      have hne : d ≠ d₁ := fun h => hd (by simp [h])
      have hrest : d ∉ rest := fun h => hd (List.mem_cons_of_mem _ h)
      rw [List.foldl_cons, ih hrest, rollbackDigest, DedupTable.find_release_until_orphan,
        if_neg fun h => hne h.1, DedupTable.find_release_reference, if_neg hne]

/-- A rollback keeps what the committed records need, because none of them needs a digest that
was newly written. -/
theorem Stocked.rollback {b : IBackend W} (hb : b.Lawful H view) {needed' : Digest → Nat}
    {digests : List Digest} (h : Stocked H view C needed' w t)
    (hle : ∀ d, needed d ≤ needed' d) (hnew : ∀ d ∈ digests, needed d = 0)
    (hremovals : Removals b (digests.map blobKey) w w') :
    Stocked H view C needed w' (rolledBack digests t) where
  counted d := by
    by_cases hd : d ∈ digests
    · rw [hnew d hd]
      exact Nat.zero_le _
    · unfold DedupTable.refcount
      rw [find_rolled_back_of_not_mem hd]
      exact Nat.le_trans (hle d) (h.counted d)
  held d e hfind := by
    obtain ⟨e₀, hfind₀, hsize, hcases⟩ := find_rolled_back digests t hfind
    have hbefore := h.held d e₀ hfind₀
    rw [hsize] at hbefore
    rcases hremovals.objects hb (blobKey d) with hsame | ⟨hin, hnone⟩
    · rw [held_by_congr hsame, hsame]
      rcases hbefore with hheld | ⟨hgone, hpositive, hneeded⟩
      · exact Or.inl hheld
      · refine Or.inr ⟨hgone, ?_, by have := hle d; omega⟩
        rcases hcases with ⟨_, rfl⟩ | ⟨_, hpositive'⟩
        · exact hpositive
        · exact hpositive'
    · obtain ⟨d₁, hd₁, hkey⟩ := List.mem_map.mp hin
      have hd : d ∈ digests := blob_key_injective hkey ▸ hd₁
      rcases hcases with ⟨hnot, _⟩ | ⟨_, hpositive⟩
      · exact absurd hd hnot
      · exact Or.inr ⟨hnone, hpositive, hnew d hd⟩

end Steps

/-! ## Publishing -/

section Publishing

variable {H : StreamHash} {b : IBackend W} {view : ObjectView W} {C : Bytes → Prop}
  {needed : Digest → Nat}

/-- The invariant of the per-chunk loop: the table also counts the chunks recorded so far, and no
record needs a digest that was newly written. -/
structure Stocking (H : StreamHash) (view : ObjectView W) (C : Bytes → Prop)
    (needed : Digest → Nat) (p : Publishing W) : Prop where
  stocked : Stocked H view C (fun d => needed d + countDigest d p.locals.chunkDescriptors)
    p.system.world p.system.store.dedup
  fresh : ∀ d ∈ p.locals.newDigests, needed d = 0
  keys : p.locals.newBlobKeys = p.locals.newDigests.map blobKey

/-- When the table's blob is not shared, there is no good object for the chunk. -/
theorem Missed.no_object (hb : b.Lawful H view) {slice : ChunkSlice} {s s' : System W}
    (h : Missed b slice s s') (e : DedupEntry) (hfind : s.store.dedup.find slice.digest = some e) :
    ¬ ∃ x, view.objects s.world (blobKey slice.digest) = some x ∧
      H.sha256 x = slice.digest := by
  cases h with
  | absent hnone =>
      rw [hnone] at hfind
      simp at hfind
  | damaged _ _ hverify hanswer =>
      intro hgood
      exact hanswer (((hb.verify _ _ _).of_ok hverify).2.mpr hgood)

/-- One round keeps the loop invariant. -/
theorem Stocking.round (hb : b.Lawful H view) {slice : ChunkSlice} {p q : Publishing W}
    {blobId : BlobId} (h : Stocking H view C needed p) (hok : SliceOk H slice)
    (hcontent : C slice.bytes) (hacquired : Acquired b slice p blobId q) :
    Stocking H view C needed (recordChunk slice blobId q) := by
  have hneeded : (fun d => needed d +
      countDigest d (recordChunk slice blobId q).locals.chunkDescriptors) =
      oneMore slice.digest (fun d => needed d + countDigest d p.locals.chunkDescriptors) := by
    funext d
    rw [count_record_chunk hacquired, oneMore, Nat.add_assoc]
  cases hacquired with
  | @reused e w t hfind hverify hadd =>
      obtain ⟨hsame, hanswer⟩ := (hb.verify _ _ _).of_ok hverify
      obtain ⟨x, hobject, _⟩ := hanswer.mp rfl
      refine ⟨?_, h.fresh, h.keys⟩
      rw [hneeded]
      refine (h.stocked.of_same hsame).reuse hfind ?_ hadd
      rw [hsame, hobject]
      simp
  | @written s w₁ w₂ t added hmissed hput hcommit hinsert =>
      have hno := hmissed.no_object hb
      have hobjects := objects_of_put_commit hb hput hcommit
      rw [hmissed.same hb] at hobjects
      refine ⟨?_, fun d hd => ?_, ?_⟩
      · rw [hneeded]
        exact h.stocked.write hno hok.digest_eq.symm hok.length_eq hcontent hobjects hinsert
      · rcases List.mem_append.mp hd with hold | hnew
        · exact h.fresh d hold
        · obtain rfl := List.mem_singleton.mp hnew
          exact Nat.eq_zero_of_add_eq_zero_right (h.stocked.not_needed hno)
      · show p.locals.newBlobKeys ++ [blobKey slice.digest] = (p.locals.newDigests ++ _).map _
        rw [h.keys, List.map_append]
        rfl

/-- The loop keeps its invariant. -/
theorem Stocking.rounds (hb : b.Lawful H view) {slices : List ChunkSlice} {p p' : Publishing W}
    (h : Stocking H view C needed p) (hok : ∀ slice ∈ slices, SliceOk H slice ∧ C slice.bytes)
    (hrounds : Rounds b slices p p') : Stocking H view C needed p' := by
  induction hrounds with
  | nil p => exact h
  | @cons slice rest p q p' blobId hacquired _ ih =>
      obtain ⟨hslice, hcontent⟩ := hok slice (by simp)
      exact ih (h.round hb hslice hcontent hacquired)
        fun slice' hin => hok slice' (List.mem_cons_of_mem _ hin)

theorem Stocking.start {s : System W} (h : Stocked H view C needed s.world s.store.dedup) :
    Stocking H view C needed (.start s) where
  stocked := h
  fresh d hd := by simp [Publishing.start] at hd
  keys := rfl

/-- A publication keeps the objects that committed records need, its own included. -/
theorem Published.stocked {env : Env} {descriptor : CheckpointDescriptor} {data : Bytes}
    {s s' : System W} (hb : b.Lawful env.hash view)
    (hbackends : ∀ id b', s.store.backends.find id = some b' → b' = b)
    (hcontent : ∀ slices, chunkStream env.hash data s.store.options.chunkSize = .ok slices →
      ∀ slice ∈ slices, C slice.bytes)
    (h : Published env descriptor data s s')
    (hs : Stocked env.hash view C (liveReferences s.store) s.world s.store.dedup) :
    Stocked env.hash view C (liveReferences s'.store) s'.world s'.store.dedup := by
  cases h with
  | @intro underlay slices p w hadmitted hslices hrounds hreads _ =>
      obtain rfl := hbackends _ _ hadmitted.backend
      have hloop := (Stocking.start hs).rounds hb (fun slice hin =>
        ⟨chunk_stream_slice_ok hslices hin, hcontent slices hslices slice hin⟩) hrounds
      have hlive : liveReferences (publishedStore env descriptor data p) =
          fun d => liveReferences s.store d + countDigest d p.locals.chunkDescriptors :=
        funext fun d => (hrounds.live_references hadmitted.fresh d).trans (Nat.add_comm _ _)
      show Stocked _ _ _ (liveReferences (publishedStore env descriptor data p)) w _
      rw [hlive]
      exact hloop.stocked.of_same (hreads.same hb)

/-- A failed publication keeps the objects that committed records need. -/
theorem PublishFailed.stocked {env : Env} {descriptor : CheckpointDescriptor} {data : Bytes}
    {s s' : System W} (hb : b.Lawful env.hash view)
    (hbackends : ∀ id b', s.store.backends.find id = some b' → b' = b)
    (hcontent : ∀ slices, chunkStream env.hash data s.store.options.chunkSize = .ok slices →
      ∀ slice ∈ slices, C slice.bytes)
    (h : PublishFailed env descriptor data s s')
    (hs : Stocked env.hash view C (liveReferences s.store) s.world s.store.dedup) :
    Stocked env.hash view C (liveReferences s'.store) s'.world s'.store.dedup := by
  have hlive : liveReferences s'.store = liveReferences s.store := by
    obtain ⟨_, _, _, _, _, hstore⟩ := h.store_eq
    funext d
    rw [hstore]
    rfl
  rw [hlive]
  cases h with
  | rejected => exact hs
  | @interrupted underlay done rest p s₁ w hadmitted hslices hrounds hstopped hremovals =>
      obtain rfl := hbackends _ _ hadmitted.backend
      have hloop := (Stocking.start hs).rounds hb (fun slice hin =>
        ⟨chunk_stream_slice_ok hslices (List.mem_append_left _ hin),
          hcontent _ hslices slice (List.mem_append_left _ hin)⟩) hrounds
      obtain ⟨c, hstore⟩ := hstopped.store_eq
      have hdedup : s₁.store.dedup = p.system.store.dedup := by rw [hstore]
      rw [hloop.keys] at hremovals
      show Stocked _ _ _ _ w (rolledBack p.locals.newDigests s₁.store.dedup)
      rw [hdedup]
      exact (hloop.stocked.of_same (hstopped.same hb)).rollback hb (fun d => Nat.le_add_right _ _)
        hloop.fresh hremovals

end Publishing

/-! ## Collecting -/

section Collecting

variable {H : StreamHash} {b : IBackend W} {view : ObjectView W} {C : Bytes → Prop}

/-- A sweep changes no object and releases only what is no longer needed. -/
theorem Stocked.sweep {eligible : List CheckpointId} {store : Store W} {w : W}
    (h : Stocked H view C (liveReferences store) w store.dedup) :
    Stocked H view C (liveReferences (sweep eligible store)) w
      (CheckpointStore.sweep eligible store).dedup where
  counted d := by
    obtain ⟨n, hlive, hcount⟩ := sweep_references eligible store d
    have hcounted := h.counted d
    omega
  held d e hfind := by
    obtain ⟨n, hlive, hcount⟩ := sweep_references eligible store d
    have hentries := sweep_entries eligible store d
    rw [hfind] at hentries
    obtain ⟨e₀, hfind₀, he₀⟩ := Option.map_eq_some_iff.mp hentries.symm
    have hsize : e₀.uncounted.physicalSize = e.uncounted.physicalSize := by rw [he₀]
    rw [show e.physicalSize = e₀.physicalSize from hsize.symm]
    rcases h.held d e₀ hfind₀ with hheld | ⟨hnone, hpositive, hneeded⟩
    · exact Or.inl hheld
    · -- Nothing needs the digest, so the sweep has not released it.
      refine Or.inr ⟨hnone, fun hzero => hpositive ?_, by omega⟩
      rw [DedupTable.refcount_of_find hfind, DedupTable.refcount_of_find hfind₀, hzero] at hcount
      apply UInt64.toNat_inj.mp
      have h0 : (0 : UInt64).toNat = 0 := rfl
      omega

/-- A change that keeps the counts, and for every digest drops the entry or keeps entry and object,
keeps the table in agreement with the objects. -/
theorem Stocked.reclaim {needed : Digest → Nat} {w w' : W} {t t' : DedupTable}
    (h : Stocked H view C needed w t) (hcounts : ∀ d, t'.refcount d = t.refcount d)
    (hentries : ∀ d, t'.find d = none ∨ (t'.find d = t.find d ∧
      view.objects w' (blobKey d) = view.objects w (blobKey d))) :
    Stocked H view C needed w' t' where
  counted d := by rw [hcounts d]; exact h.counted d
  held d e hfind := by
    rcases hentries d with hnone | ⟨hsame, hobject⟩
    · rw [hnone] at hfind
      simp at hfind
    · rw [hsame] at hfind
      rw [held_by_congr hobject, hobject]
      exact h.held d e hfind

section Reclaiming

variable {reachable : List BlobId} {bid : BlobId} {s s' : System W}

/-- Reclaiming removes an object together with its entry. -/
theorem Reclaimed.entry_objects (hb : b.Lawful H view)
    (hbackends : ∀ id b', s.store.backends.find id = some b' → b' = b)
    (h : Reclaimed reachable bid s s') (d : Digest) :
    s'.store.dedup.find d = none ∨ (s'.store.dedup.find d = s.store.dedup.find d ∧
      view.objects s'.world (blobKey d) = view.objects s.world (blobKey d)) := by
  cases h with
  | deferred => exact Or.inr ⟨rfl, rfl⟩
  | @forgot bd removedAny w calls hreach hfind hcount hcalls htrace =>
      have hobjects := hcalls.objects hb hbackends (by simp)
      cases removedAny with
      | false => exact Or.inr ⟨rfl, congrFun hobjects _⟩
      | true =>
          rw [if_pos rfl] at hobjects
          show (s.store.dedup.releaseUntilOrphan bd.digest).2.find d = none ∨
            ((s.store.dedup.releaseUntilOrphan bd.digest).2.find d = _ ∧ _)
          rw [DedupTable.find_release_until_orphan]
          by_cases hd : d = bd.digest
          · exact Or.inl (if_pos ⟨hd, hcount⟩)
          · exact Or.inr ⟨if_neg fun h => hd h.1, objects_update_ne hobjects hd⟩

/-- A `remove` that throws has found the object, so nothing was removed before it either. -/
theorem ReclaimThrew.same (hb : b.Lawful H view)
    (hbackends : ∀ id b', s.store.backends.find id = some b' → b' = b)
    (h : ReclaimThrew reachable bid s s') : view.Same s.world s'.world := by
  cases h with
  | @intro bd asked removedAny w₁ w calls id b' exn hreach hfind hcount hcalls hbackend hthrow
    htrace =>
      obtain rfl := hbackends _ _ hbackend
      obtain ⟨hsame, hpresent⟩ := (hb.remove _ _).of_error hthrow
      have hobjects := hcalls.objects hb hbackends (by simp)
      cases removedAny with
      | true =>
          rw [if_pos rfl] at hobjects
          exact absurd (objects_update_self hobjects) hpresent
      | false => exact ObjectView.Same.trans hobjects hsame

theorem Reclaims.entry_objects (hb : b.Lawful H view) {bids : List BlobId}
    (hbackends : ∀ id b', s.store.backends.find id = some b' → b' = b)
    (h : Reclaims reachable bids s s') (d : Digest) :
    s'.store.dedup.find d = none ∨ (s'.store.dedup.find d = s.store.dedup.find d ∧
      view.objects s'.world (blobKey d) = view.objects s.world (blobKey d)) := by
  induction h with
  | nil s => exact Or.inr ⟨rfl, rfl⟩
  | @cons bid rest s s₁ s' hround _ ih =>
      have hbackends₁ : ∀ id b', s₁.store.backends.find id = some b' → b' = b := by
        cases hround with
        | deferred => exact hbackends
        | forgot => exact hbackends
      rcases ih hbackends₁ with hnone | ⟨hfind, hobject⟩
      · exact Or.inl hnone
      · rcases hround.entry_objects hb hbackends d with hnone | ⟨hfind', hobject'⟩
        · exact Or.inl (hfind.trans hnone)
        · exact Or.inr ⟨hfind.trans hfind', hobject.trans hobject'⟩

end Reclaiming

/-- After a `gc_run`, also an interrupted one, counts and live references are those of its sweep,
and every digest has lost its entry or kept the entry of the sweep and its object. -/
theorem GcRan.effect (hb : b.Lawful H view) {env : Env} {s s' : System W}
    (hbackends : ∀ id b', s.store.backends.find id = some b' → b' = b) (h : GcRan env s s') :
    ∃ eligible, ∀ d,
      s'.store.dedup.refcount d = (sweep eligible s.store).dedup.refcount d ∧
      liveReferences s'.store d = liveReferences (sweep eligible s.store) d ∧
      (s'.store.dedup.find d = none ∨
        (s'.store.dedup.find d = (sweep eligible s.store).dedup.find d ∧
          view.objects s'.world (blobKey d) = view.objects s.world (blobKey d))) := by
  have hswept : ∀ eligible id b',
      (sweep eligible s.store).backends.find id = some b' → b' = b := by
    intro eligible
    obtain ⟨_, _, _, hstore⟩ := sweep_store_eq eligible s.store
    rw [hstore]
    exact hbackends
  cases h with
  | @completed eligible retained s₁ s₂ s₃ heligible hretained hreclaims =>
      obtain ⟨_, rfl⟩ := protected_sets_clock_only heligible hretained
      refine ⟨eligible, fun d => ?_⟩
      obtain ⟨hcount, hlive⟩ := hreclaims.references d
      exact ⟨hcount, hlive, hreclaims.entry_objects hb (hswept eligible) d⟩
  | @interrupted eligible retained s₁ s₂ s₃ s₄ done rest bid heligible hretained hplan hreclaims
      hthrew =>
      obtain ⟨_, rfl⟩ := protected_sets_clock_only heligible hretained
      refine ⟨eligible, fun d => ?_⟩
      obtain ⟨hcount, hlive⟩ := hreclaims.references d
      have hentry := hreclaims.entry_objects hb (hswept eligible) d
      have hbackends₃ : ∀ id b', s₃.store.backends.find id = some b' → b' = b := by
        obtain ⟨_, _, _, hstore⟩ := hreclaims.store_eq
        rw [hstore]
        exact hswept eligible
      have hsame := congrFun (hthrew.same hb hbackends₃) (blobKey d)
      cases hthrew with
      | intro =>
          refine ⟨hcount, hlive, ?_⟩
          rcases hentry with hnone | ⟨hfind, hobject⟩
          · exact Or.inl hnone
          · exact Or.inr ⟨hfind, hsame.trans hobject⟩

/-- A `gc_run` keeps the objects that committed records need, also when it is interrupted. -/
theorem GcRan.stocked (hb : b.Lawful H view) {env : Env} {s s' : System W}
    (hbackends : ∀ id b', s.store.backends.find id = some b' → b' = b) (h : GcRan env s s')
    (hs : Stocked H view C (liveReferences s.store) s.world s.store.dedup) :
    Stocked H view C (liveReferences s'.store) s'.world s'.store.dedup := by
  obtain ⟨eligible, heffect⟩ := h.effect hb hbackends
  rw [show liveReferences s'.store = liveReferences (sweep eligible s.store) from
    funext fun d => (heffect d).2.1]
  exact hs.sweep.reclaim (fun d => (heffect d).1) fun d => (heffect d).2.2

end Collecting

/-! ## Runs -/

section Runs

variable {env : Env} {b : IBackend W} {view : ObjectView W} {C : Bytes → Prop}

/-- The contents of the chunks an event tries to publish. -/
def Event.contents (H : StreamHash) (chunkSize : UInt64) (e : Event W) : List Bytes :=
  match e.publication with
  | none => []
  | some (_, data) => match chunkStream H data chunkSize with
      | .ok slices => slices.map ChunkSlice.bytes
      | .error _ => []

theorem mem_contents_publish {H : StreamHash} {chunkSize : UInt64}
    {descriptor : CheckpointDescriptor} {data : Bytes} {thrown : Option Exn}
    {slices : List ChunkSlice} (hslices : chunkStream H data chunkSize = .ok slices)
    {slice : ChunkSlice} (hin : slice ∈ slices) :
    slice.bytes ∈ (Event.call (W := W) (.publish descriptor data) thrown).contents H chunkSize := by
  simp only [Event.contents, Event.publication, hslices]
  exact List.mem_map_of_mem hin

/-- A store whose only backend is `b`, with its dedup table in agreement with the objects. -/
structure Supplied (env : Env) (b : IBackend W) (view : ObjectView W) (C : Bytes → Prop)
    (chunkSize : UInt64) (s : System W) : Prop where
  backends : ∀ id b', s.store.backends.find id = some b' → b' = b
  chunkSize_eq : s.store.options.chunkSize = chunkSize
  stocked : Stocked env.hash view C (liveReferences s.store) s.world s.store.dedup

/-- A lawful backend is only looked at by the looking calls. -/
theorem all_look_of_lawful {H : StreamHash} (hb : b.Lawful H view) {s : System W}
    (hbackends : ∀ id b', s.store.backends.find id = some b' → b' = b) :
    AllLook view.Same s := by
  intro id b' hb'
  obtain rfl := hbackends id b' hb'
  exact ⟨hb.read, hb.exists_key, hb.keeps_verify, hb.health⟩

/-- No step but a restart changes the backends. -/
theorem Transition.find_backend {R : W → W → Prop} {s s' : System W} {e : Event W}
    (h : Transition env R s e s') (hreopens : e.reopens = false) (id : StorageBackendId) :
    s'.store.backends.find id = s.store.backends.find id := by
  cases h with
  | quiet _ h => exact h.backends id
  | published h => rw [h.store_eq.2.1]
  | publishFailed h =>
      obtain ⟨_, _, _, _, _, hstore⟩ := h.store_eq
      rw [hstore]
  | gcRan h =>
      obtain ⟨_, _, _, _, _, hstore⟩ := h.store_eq
      rw [hstore]
  | reopened => simp [Event.reopens] at hreopens

/-- No step but a restart changes the chunk size. -/
theorem Transition.chunk_size_eq {R : W → W → Prop} {s s' : System W} {e : Event W}
    (h : Transition env R s e s') (hreopens : e.reopens = false) :
    s'.store.options.chunkSize = s.store.options.chunkSize := by
  cases h with
  | quiet _ h => exact h.chunkSize
  | published h => rw [h.store_eq.1]
  | publishFailed h =>
      obtain ⟨_, _, _, _, _, hstore⟩ := h.store_eq
      rw [hstore]
  | gcRan h =>
      obtain ⟨_, _, _, _, _, hstore⟩ := h.store_eq
      rw [hstore]
  | reopened => simp [Event.reopens] at hreopens

/-- Every step but a restart keeps table and objects in agreement. -/
theorem Transition.supplied (hb : b.Lawful env.hash view) {chunkSize : UInt64} {s s' : System W}
    {e : Event W} (h : Transition env view.Same s e s') (hreopens : e.reopens = false)
    (hcontents : ∀ x ∈ e.contents env.hash chunkSize, C x)
    (hs : Supplied env b view C chunkSize s) : Supplied env b view C chunkSize s' := by
  obtain ⟨hbackends, hsize, hstocked⟩ := hs
  have hbackends' : ∀ id b', s'.store.backends.find id = some b' → b' = b :=
    fun id b' hfind => hbackends id b' ((h.find_backend hreopens id).symm.trans hfind)
  refine ⟨hbackends', (h.chunk_size_eq hreopens).trans hsize, ?_⟩
  cases h with
  | quiet _ h =>
      rw [show liveReferences s'.store = liveReferences s.store from
        funext (live_references_quiet h)]
      refine ⟨fun d => by rw [refcount_quiet h]; exact hstocked.counted d, fun d e hfind => ?_⟩
      rw [h.dedup d] at hfind
      exact (hstocked.of_same h.world).held d e hfind
  | published h =>
      refine h.stocked hb hbackends (fun slices hslices slice hin => ?_) hstocked
      exact hcontents _ (mem_contents_publish (hsize ▸ hslices) hin)
  | publishFailed h =>
      refine h.stocked hb hbackends (fun slices hslices slice hin => ?_) hstocked
      exact hcontents _ (mem_contents_publish (hsize ▸ hslices) hin)
  | gcRan h => exact h.stocked hb hbackends hstocked
  | reopened => simp [Event.reopens] at hreopens

/-- A fresh store has an empty table. -/
theorem supplied_fresh {options : StoreOptions}
    {backends : UnorderedMap StorageBackendId (IBackend W)} {w : W}
    (hbackends : ∀ id b', backends.find id = some b' → b' = b) :
    Supplied env b view C options.chunkSize (.fresh options backends w) where
  backends := hbackends
  chunkSize_eq := rfl
  stocked := {
    counted := fun _ => Nat.le_refl 0
    held := fun d e hfind => by simp [System.fresh, Store.create] at hfind }

/-- Until a restart a fresh store over the backend `b` stays supplied. What holds of it at the start
and is kept by the transitions of supplied stores holds after every such run. -/
theorem supplied_invariant (hb : b.Lawful env.hash view) {options : StoreOptions}
    {backends : UnorderedMap StorageBackendId (IBackend W)} {w : W}
    (hbackends : ∀ id b', backends.find id = some b' → b' = b) {A : Event W → Prop}
    (hadmits : ∀ e, A e → e.reopens = false ∧ ∀ x ∈ e.contents env.hash options.chunkSize, C x)
    (P : List (Event W) → System W → Prop) (hstart : P [] (.fresh options backends w))
    (hkeeps : ∀ past s e s', Supplied env b view C options.chunkSize s → P past s → A e →
      Transition env view.Same s e s' → P (past ++ [e]) s')
    {events : List (Event W)} {s : System W}
    (hrun : Run (Step env view.Same) (.fresh options backends w) events s)
    (hall : ∀ e ∈ events, A e) :
    Supplied env b view C options.chunkSize s ∧ P events s := by
  refine Run.invariant_on (fun past s => Supplied env b view C options.chunkSize s ∧ P past s)
    ⟨supplied_fresh hbackends, hstart⟩ ?_ hrun hall
  rintro past s₁ e s₂ _ ⟨hs, hpast⟩ hadmitted hstep
  obtain ⟨hreopens, hcontents⟩ := hadmits e hadmitted
  have htransition := step_transition (all_look_of_lawful hb hs.backends) hstep
  exact ⟨htransition.supplied hb hreopens hcontents hs,
    hkeeps past s₁ e s₂ hs hpast hadmitted htransition⟩

/-- A chunk of a live checkpoint has its entry and its object. -/
theorem Supplied.held_of_chunk {chunkSize : UInt64} {s : System W}
    (hs : Supplied env b view C chunkSize s) {id : CheckpointId} {rec : CheckpointRecord}
    (hfind : s.store.checkpoints.find id = some rec) (hlive : rec.lifecycle ≠ .deleted)
    {cd : ChunkDescriptor} (hcd : cd ∈ rec.chunks) :
    ∃ e, s.store.dedup.find cd.digest = some e ∧
      HeldBy env.hash view C s.world cd.digest e.physicalSize := by
  have hreferences : 0 < rec.references cd.digest := by
    unfold CheckpointRecord.references countDigest
    rw [if_neg hlive]
    exact List.countP_pos_iff.mpr ⟨cd, hcd, by simp⟩
  have hneeded : 0 < liveReferences s.store cd.digest :=
    Nat.lt_of_lt_of_le hreferences
      (UnorderedMap.le_sum_by hfind fun _ rec => rec.references cd.digest)
  have hcounted := hs.stocked.counted cd.digest
  have hpositive : s.store.dedup.refcount cd.digest ≠ 0 := by
    intro hzero
    rw [hzero] at hcounted
    have h0 : (0 : UInt64).toNat = 0 := rfl
    omega
  obtain ⟨e, hentry⟩ := DedupTable.find_of_refcount_ne_zero hpositive
  rcases hs.stocked.held _ _ hentry with hheld | ⟨_, _, hnone⟩
  · exact ⟨e, hentry, hheld⟩
  · omega

end Runs

end CheckpointStore
