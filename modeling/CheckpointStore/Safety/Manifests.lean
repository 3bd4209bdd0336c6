import CheckpointStore.Persistence.RoundTrip
import CheckpointStore.Store.Publish

/-!
# What a manifest says

The semantic digest is taken over a string in which every field can be told apart from what
follows it, so it identifies the fields that are in the string (`semantic_bytes_identify`).
Lineage, parent and base are not among them.
-/

namespace CheckpointStore

open Foundation Foundation.Procedure

variable {α : Type}

/-! ## Codes that end by themselves -/

/-- Two codes with anything behind them are equal only if the values and what is behind them
are. -/
def Delimited (write : α → Bytes) : Prop :=
  ∀ ⦃a b : α⦄ ⦃s t : Bytes⦄, write a ++ s = write b ++ t → a = b ∧ s = t

/-- What a reader reads back ends by itself. -/
theorem Decodes.delimited {m : Proc BinReader α} {write : α → Bytes}
    (h : ∀ a, Decodes m (write a) True a) (hlength : ∀ a, (write a).length < 2 ^ 32) :
    Delimited write := by
  intro a b s t heq
  have ha := h a { view := write a ++ s } s trivial rfl (hlength a)
  have hb := h b { view := write a ++ s } t trivial heq (hlength b)
  -- Both describe the one run of the reader on the common string.
  unfold Post at ha hb
  split at ha <;> rename_i hrun
  · rw [hrun] at hb
    exact ⟨ha.2.2.symm.trans hb.2.2, ha.2.1.symm.trans hb.2.1⟩
  · exact absurd trivial ha.1

theorem delimited_u64 : Delimited BinWriter.u64 :=
  Decodes.delimited decodes_u64 fun _ => (put_le_length _ 8).trans_lt (by decide)

theorem delimited_u32 : Delimited BinWriter.u32 :=
  Decodes.delimited decodes_u32 fun _ => (put_le_length _ 4).trans_lt (by decide)

theorem delimited_id {kind : IdKind} : Delimited (BinWriter.id : BasicId kind → Bytes) :=
  Decodes.delimited decodes_id fun _ => (put_le_length _ 8).trans_lt (by decide)

theorem delimited_generation {kind : GenerationKind} :
    Delimited (BinWriter.generation : BasicGeneration kind → Bytes) :=
  Decodes.delimited decodes_generation fun _ => (put_le_length _ 8).trans_lt (by decide)

theorem delimited_enum [ByteEnum α] : Delimited (BinWriter.enum : α → Bytes) :=
  Decodes.delimited decodes_enum fun _ => (by decide : 1 < 2 ^ 32)

theorem delimited_sha256 : Delimited BinWriter.sha256 :=
  Decodes.delimited decodes_sha256 fun d => d.length_eq.trans_lt (by decide)

/-- An entry has a fixed length. -/
theorem delimited_manifest_entry : Delimited BinWriter.writeManifestEntry := by
  intro a b s t h
  unfold BinWriter.writeManifestEntry at h
  simp only [List.append_assoc] at h
  obtain ⟨hid, hrest⟩ := delimited_id h
  obtain ⟨hoffset, hrest⟩ := delimited_u64 hrest
  refine ⟨?_, hrest⟩
  obtain ⟨_, _⟩ := a
  cases hid
  cases hoffset
  rfl

/-- As many elements on both sides end at the same place. -/
theorem Delimited.elements {write : α → Bytes} (hwrite : Delimited write) {xs ys : List α}
    {s t : Bytes} (hlength : xs.length = ys.length)
    (h : xs.flatMap write ++ s = ys.flatMap write ++ t) : xs = ys ∧ s = t := by
  induction xs generalizing ys with
  | nil =>
      obtain rfl := List.length_eq_zero_iff.mp hlength.symm
      exact ⟨rfl, h⟩
  | cons x rest ih =>
      obtain ⟨y, rest', rfl⟩ := List.exists_cons_of_length_eq_add_one hlength.symm
      rw [List.flatMap_cons, List.flatMap_cons, List.append_assoc, List.append_assoc] at h
      obtain ⟨hhead, htail⟩ := hwrite h
      obtain ⟨hrest, hend⟩ := ih (Nat.succ.inj hlength) htail
      exact ⟨by rw [hhead, hrest], hend⟩

/-- A list whose length fits into the count ends by itself. -/
theorem Delimited.list {write : α → Bytes} (hwrite : Delimited write) {xs ys : List α}
    {s t : Bytes} (hxs : xs.length < 2 ^ 32) (hys : ys.length < 2 ^ 32)
    (h : BinWriter.list write xs ++ s = BinWriter.list write ys ++ t) : xs = ys ∧ s = t := by
  unfold BinWriter.list at h
  rw [List.append_assoc, List.append_assoc] at h
  obtain ⟨hcount, h⟩ := delimited_u32 h
  have hlength : xs.length = ys.length := by
    rw [← UInt32.toNat_ofNat_of_lt' hxs, ← UInt32.toNat_ofNat_of_lt' hys, hcount]
  exact hwrite.elements hlength h

/-! ## The semantic digest -/

/-- Two manifests with fewer than 2^32 entries have the same string under the semantic digest
exactly if they agree in every field other than the lineage, the parent, the base and the digest
itself. -/
theorem semantic_bytes_identify {m n : CheckpointManifest} (hm : m.chunks.length < 2 ^ 32)
    (hn : n.chunks.length < 2 ^ 32) :
    semanticBytes m = semanticBytes n ↔ ∃ lineage parent base digest, n =
      { m with lineage := lineage, parent := parent, base := base, semanticDigest := digest } := by
  constructor
  · intro h
    unfold semanticBytes at h
    rw [← List.append_nil (_ ++ BinWriter.u64 m.requiredReplicaCount),
      ← List.append_nil (_ ++ BinWriter.u64 n.requiredReplicaCount)] at h
    simp only [List.append_assoc] at h
    obtain ⟨hid, h⟩ := delimited_id h
    obtain ⟨hgeneration, h⟩ := delimited_generation h
    obtain ⟨hcheckpoint, h⟩ := delimited_id h
    obtain ⟨hcheckpointGeneration, h⟩ := delimited_generation h
    obtain ⟨hchunks, h⟩ := delimited_manifest_entry.list hm hn h
    obtain ⟨hsize, h⟩ := delimited_u64 h
    obtain ⟨hdigest, h⟩ := delimited_sha256 h
    obtain ⟨hprovenance, h⟩ := delimited_enum h
    obtain ⟨hdurability, h⟩ := delimited_enum h
    obtain ⟨hcount, -⟩ := delimited_u64 h
    refine ⟨n.lineage, n.parent, n.base, n.semanticDigest, ?_⟩
    obtain ⟨⟩ := n
    simp_all
  · rintro ⟨lineage, parent, base, digest, rfl⟩
    rfl

/-- Two manifests that list the same two chunks in another order hash different strings. -/
theorem semantic_bytes_identify_order :
    semanticBytes {
        chunks := [⟨⟨1⟩, 0⟩, ⟨⟨2⟩, 8⟩], logicalSize := 16
        checkpointDigest := .zero, semanticDigest := .zero } ≠
      semanticBytes {
        chunks := [⟨⟨2⟩, 0⟩, ⟨⟨1⟩, 8⟩], logicalSize := 16
        checkpointDigest := .zero, semanticDigest := .zero } := by
  intro h
  obtain ⟨_, _, _, _, hmanifest⟩ := (semantic_bytes_identify (by decide) (by decide)).mp h
  have hchunks : [ManifestEntry.mk ⟨2⟩ 0, ⟨⟨1⟩, 8⟩] = [⟨⟨1⟩, 0⟩, ⟨⟨2⟩, 8⟩] :=
    congrArg CheckpointManifest.chunks hmanifest
  exact absurd hchunks (by decide)

/-- Full and incremental checkpoints can have manifests with one semantic digest: neither the
lineage nor the parent nor the base is hashed. -/
theorem semantic_bytes_omit_ancestry :
    ∃ m n : CheckpointManifest, m.chunks = [] ∧ n.chunks = [] ∧ semanticBytes m = semanticBytes n ∧
      m.lineage ≠ n.lineage ∧ m.parent ≠ n.parent ∧ m.base ≠ n.base :=
  ⟨{ checkpointDigest := .zero, semanticDigest := .zero },
    { lineage := [⟨1⟩], parent := some ⟨1⟩, base := some ⟨1⟩, checkpointDigest := .zero,
      semanticDigest := .zero }, rfl, rfl, rfl, by decide, by decide, by decide⟩

end CheckpointStore
