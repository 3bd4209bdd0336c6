import CheckpointStore.Model.Digest
import Mathlib.Data.List.Infix

/-!
# Backend keys and the paths they name

`validate_backend_key` and `LocalBackend::physical_path`. The keys that pass are characterised by
their components (`validate_backend_key_iff`), where the components are those between the slashes:
a backslash does not end a component. What a path names depends on the platform, which reads it
with one separator or with two (`Platform`), and a key stays below the root on a platform if its
separators give sound components (`Platform.confined`).
-/

namespace CheckpointStore

/-! ## The source -/

/-- `std::tolower` in the C locale. -/
def toLower (c : UInt8) : UInt8 := if 65 ≤ c ∧ c ≤ 90 then c + 32 else c

/-- `std::isalpha` in the C locale. -/
def isAlpha (c : UInt8) : Bool := 97 ≤ toLower c ∧ toLower c ≤ 122

/-- `digits_ok`: the letters, followed by a digit other than 0. -/
def digitsOk (s letters : Bytes) : Bool :=
  s.length = 4 ∧ s.take 3 = letters ∧ 49 ≤ s.getD 3 0 ∧ s.getD 3 0 ≤ 57

/-- The device names without a number. -/
def reservedNames : List Bytes :=
  [ascii ['c', 'o', 'n'], ascii ['p', 'r', 'n'], ascii ['a', 'u', 'x'], ascii ['n', 'u', 'l'],
    ascii ['c', 'l', 'o', 'c', 'k', '$'], ascii ['c', 'o', 'n', 'i', 'n', '$'],
    ascii ['c', 'o', 'n', 'o', 'u', 't', '$']]

/-- `is_reserved_windows_name`. -/
def isReservedWindowsName (comp : Bytes) : Bool :=
  let c := comp.map toLower
  reservedNames.contains c || digitsOk c (ascii ['c', 'o', 'm']) ||
    digitsOk c (ascii ['l', 'p', 't'])

/-- The character `/`. -/
def slash : UInt8 := 47

/-- The character `\`. -/
def backslash : UInt8 := 92

/-- The character `:`. -/
def colon : UInt8 := 58

/-- The name of the directory itself. -/
def dot : Bytes := ascii ['.']

/-- The name of the directory above. -/
def dotDot : Bytes := ascii ['.', '.']

/-- The checks in the body of the loop. -/
def componentOk (comp : Bytes) : Bool :=
  if comp.isEmpty then false
  else if comp = dot ∨ comp = dotDot then false
  else if ascii [':', '/', '/'] <:+: comp then false
  else if colon ∈ comp then false
  else if comp.length > 255 then false
  else if comp.head? = some 46 ∨ comp.getLast? = some 46 then false
  else if comp.getLast? = some 32 then false
  else if isReservedWindowsName comp then false
  else true

/-- The loop over the components. Every round starts behind the end of the one before, so that one
round more than the key has characters is enough. -/
def validateComponents (key : Bytes) : Nat → Nat → Bool
  | 0, _ => false
  | fuel + 1, start =>
      let comp := (key.drop start).takeWhile (· ≠ slash)
      let stop := start + comp.length
      if !componentOk comp then false
      else if stop = key.length then true
      else validateComponents key fuel (stop + 1)

/-- The text begins with a letter and a colon. -/
def hasDriveLetter (text : Bytes) : Prop :=
  2 ≤ text.length ∧ isAlpha (text.getD 0 0) ∧ text.getD 1 0 = colon

instance (text : Bytes) : Decidable (hasDriveLetter text) :=
  inferInstanceAs (Decidable (_ ∧ _))

/-- `validate_backend_key`. -/
def validateBackendKey (key : Bytes) : Bool :=
  if key.isEmpty then false
  else if 0 ∈ key then false
  else if key.length > 1024 then false
  else if key.head? = some slash ∨ key.head? = some backslash then false
  else if hasDriveLetter key then false
  else validateComponents key (key.length + 1) 0

/-- How a platform reads a path. -/
structure Platform where
  isSeparator : UInt8 → Bool
  /-- Whether a letter and a colon in front name a drive. -/
  hasDrives : Bool

/-- Paths with slashes only. -/
def Platform.posix : Platform := { isSeparator := (· == slash), hasDrives := false }

/-- Paths with both separators, and with drives. -/
def Platform.windows : Platform :=
  { isSeparator := fun c => c == slash || c == backslash, hasDrives := true }

/-- A `std::filesystem::path`: its root name and root directory, and the names below. -/
structure PathName where
  drive : Option UInt8 := none
  rooted : Bool := false
  components : List Bytes := []
  deriving DecidableEq

/-- The path that a platform reads from a text. -/
def Platform.parse (P : Platform) (text : Bytes) : PathName :=
  let drive := P.hasDrives ∧ hasDriveLetter text
  let rest := if drive then text.drop 2 else text
  { drive := if drive then text.head? else none
    rooted := rest.head?.any P.isSeparator
    components := (rest.splitOnP P.isSeparator).filter (· ≠ []) }

/-- `operator/=`: a path with a root of its own replaces what is on its left. -/
def PathName.join (root p : PathName) : PathName :=
  if p.drive ≠ none ∧ (p.drive ≠ root.drive ∨ p.rooted) then p
  else if p.rooted then { root with rooted := true, components := p.components }
  else { root with components := root.components ++ p.components }

/-- The next name of a path, when the names before it have been brought into normal form. -/
def normalStep (rooted : Bool) (names : List Bytes) (name : Bytes) : List Bytes :=
  if name = [] ∨ name = dot then names
  else if name = dotDot then
    match names.getLast? with
    | none => if rooted then names else [dotDot]
    | some last => if last = dotDot then names ++ [dotDot] else names.dropLast
  else names ++ [name]

/-- `lexically_normal`. -/
def PathName.lexicallyNormal (p : PathName) : PathName :=
  { p with components := p.components.foldl (normalStep p.rooted) [] }

/-- `LocalBackend::physical_path`. -/
def physicalPath (P : Platform) (root : PathName) (key : BackendKey) : Except Exn PathName :=
  if !validateBackendKey key.value then .error (.error .invalidArgument "invalid backend key")
  else .ok (root.join (P.parse key.value))

/-! ## What is accepted -/

section Splitting

variable {α : Type} {p q : α → Bool}

/-- The parts hold elements of the whole. -/
theorem mem_of_mem_split {xs part : List α} (hpart : part ∈ xs.splitOnP p) {x : α}
    (hx : x ∈ part) : x ∈ xs := by
  induction xs generalizing part with
  | nil =>
      rw [List.splitOnP_nil, List.mem_singleton] at hpart
      exact hpart ▸ hx
  | cons y ys ih =>
      rw [List.splitOnP_cons_eq_if_modifyHead] at hpart
      split at hpart
      · obtain rfl | hpart := List.mem_cons.mp hpart
        · exact absurd hx List.not_mem_nil
        · exact List.mem_cons_of_mem _ (ih hpart hx)
      · cases hsplit : ys.splitOnP p with
        | nil =>
            rw [hsplit] at hpart
            exact absurd hpart List.not_mem_nil
        | cons first others =>
            rw [hsplit] at hpart
            rw [hsplit] at ih
            obtain rfl | hpart := List.mem_cons.mp hpart
            · obtain rfl | hx := List.mem_cons.mp hx
              · exact List.mem_cons_self
              · exact List.mem_cons_of_mem _ (ih List.mem_cons_self hx)
            · exact List.mem_cons_of_mem _ (ih (List.mem_cons_of_mem _ hpart) hx)

/-- Splitting at two kinds of separators splits at the one kind and then at the other. -/
theorem split_or (xs : List α) :
    xs.splitOnP (fun x => p x || q x) = (xs.splitOnP p).flatMap (List.splitOnP q) := by
  induction xs with
  | nil => simp
  | cons x xs ih =>
      obtain ⟨first, rest, hsplit⟩ := List.exists_cons_of_ne_nil (List.splitOnP_ne_nil p xs)
      obtain ⟨piece, pieces, hfirst⟩ := List.exists_cons_of_ne_nil (List.splitOnP_ne_nil q first)
      rw [List.splitOnP_cons_eq_if_modifyHead, List.splitOnP_cons_eq_if_modifyHead, ih, hsplit]
      cases hp : p x <;> cases hq : q x <;>
        simp [List.splitOnP_cons_eq_if_modifyHead, hq, hfirst]

end Splitting

/-- A chain of checks accepts what passes all of them. -/
theorem refuse_iff {c : Prop} [Decidable c] {b : Bool} :
    (if c then false else b) = true ↔ ¬ c ∧ b = true := by
  split <;> simp_all

/-- The loop checks every component between slashes. -/
theorem validate_components_iff {key : Bytes} {fuel start : Nat} (hstart : start ≤ key.length)
    (hfuel : key.length - start < fuel) :
    validateComponents key fuel start = true ↔
      ∀ comp ∈ (key.drop start).splitOnP (· == slash), componentOk comp = true := by
  induction fuel generalizing start with
  | zero => exact absurd hfuel (Nat.not_lt_zero _)
  | succ fuel ih =>
      have hlength : (key.drop start).length = key.length - start := List.length_drop
      simp only [validateComponents, refuse_iff, Bool.not_eq_true', Bool.not_eq_false]
      by_cases hmem : slash ∈ key.drop start
      · obtain ⟨comp, rest, hrest, hcomp⟩ := List.eq_append_cons_of_mem hmem
        have hnone : ∀ c ∈ comp, (c == slash) = false := by
          intro c hc
          exact beq_eq_false_iff_ne.mpr fun heq => hcomp (heq ▸ hc)
        have htake : (key.drop start).takeWhile (· ≠ slash) = comp := by
          rw [hrest, List.takeWhile_append_of_pos]
          · simp
          · intro c hc
            simpa using hnone c hc
        have hdrop : key.drop (start + comp.length + 1) = rest := by
          rw [Nat.add_assoc, ← List.drop_drop, hrest, ← List.drop_drop, List.drop_left]
          rfl
        rw [hrest, List.length_append, List.length_cons] at hlength
        rw [htake, hrest, List.splitOnP_append_cons_of_forall_mem hnone slash (by simp),
          List.forall_mem_cons, ← hdrop, ← ih (by omega) (by omega), if_neg (by omega)]
      · have hnone : ∀ c ∈ key.drop start, (c == slash) = false := by
          intro c hc
          exact beq_eq_false_iff_ne.mpr fun heq => hmem (heq ▸ hc)
        have htake : (key.drop start).takeWhile (· ≠ slash) = key.drop start := by
          rw [← List.append_nil (key.drop start), List.takeWhile_append_of_pos, List.takeWhile_nil]
          intro c hc
          simpa using hnone c hc
        rw [htake, List.splitOnP_eq_singleton hnone, if_pos (by omega)]
        simp

/-- A component that names something in the directory it stands in, and nothing else. -/
structure SoundComponent (comp : Bytes) : Prop where
  ne_nil : comp ≠ []
  ne_dot : comp ≠ dot
  ne_dot_dot : comp ≠ dotDot
  no_nul : 0 ∉ comp
  no_colon : colon ∉ comp
  not_reserved : isReservedWindowsName comp = false

/-- The keys that are accepted. -/
theorem validate_backend_key_iff {key : Bytes} :
    validateBackendKey key = true ↔
      key ≠ [] ∧ 0 ∉ key ∧ key.length ≤ 1024 ∧ key.head? ≠ some slash ∧
        key.head? ≠ some backslash ∧ ¬ hasDriveLetter key ∧
        ∀ comp ∈ key.splitOnP (· == slash), componentOk comp = true := by
  have hloop : validateComponents key (key.length + 1) 0 = true ↔
      ∀ comp ∈ (key.drop 0).splitOnP (· == slash), componentOk comp = true :=
    validate_components_iff (Nat.zero_le _) (by omega)
  rw [List.drop_zero] at hloop
  simp only [validateBackendKey, refuse_iff, hloop, List.isEmpty_iff, not_or, Nat.not_lt,
    and_assoc, gt_iff_lt, ne_eq]

/-- What the checks of the loop leave. -/
theorem sound_of_component_ok {comp : Bytes} (h : componentOk comp = true) (hnul : 0 ∉ comp) :
    SoundComponent comp := by
  simp only [componentOk, refuse_iff, List.isEmpty_iff, not_or, Bool.not_eq_true] at h
  obtain ⟨hnil, ⟨hdot, hdotDot⟩, -, hcolon, -, -, -, hreserved, -⟩ := h
  exact ⟨hnil, hdot, hdotDot, hnul, hcolon, hreserved⟩

/-! ## Where accepted keys lead -/

/-- The path names something below the root. -/
def PathName.Inside (p root : PathName) : Prop :=
  p.drive = root.drive ∧ p.rooted = root.rooted ∧
    ∃ below, below ≠ [] ∧
      p.lexicallyNormal.components = root.lexicallyNormal.components ++ below

/-- Sound components are kept as they are. -/
theorem normal_step_sound {rooted : Bool} {comps names : List Bytes}
    (h : ∀ comp ∈ comps, SoundComponent comp) :
    comps.foldl (normalStep rooted) names = names ++ comps := by
  induction comps generalizing names with
  | nil => rw [List.foldl_nil, List.append_nil]
  | cons comp comps ih =>
      have hcomp := h comp List.mem_cons_self
      have hstep : normalStep rooted names comp = names ++ [comp] := by
        rw [normalStep, if_neg (not_or.mpr ⟨hcomp.ne_nil, hcomp.ne_dot⟩), if_neg hcomp.ne_dot_dot]
      rw [List.foldl_cons, hstep, ih fun c hc => h c (List.mem_cons_of_mem _ hc),
        List.append_assoc, List.singleton_append]

/-- A platform reads an accepted key as its components, if those are sound. -/
theorem Platform.parse_accepted {P : Platform} {k : Bytes} (hk : validateBackendKey k = true)
    (hseparators : ∀ c, P.isSeparator c = true → c = slash ∨ c = backslash)
    (hsound : ∀ comp ∈ k.splitOnP P.isSeparator, SoundComponent comp) :
    P.parse k = { components := k.splitOnP P.isSeparator } := by
  obtain ⟨-, -, -, hslash, hbackslash, hdrive, -⟩ := validate_backend_key_iff.mp hk
  have hrooted : k.head?.any P.isSeparator = false := by
    cases hhead : k.head? with
    | none => rfl
    | some c =>
        rw [Option.any_some, Bool.eq_false_iff]
        intro hc
        obtain rfl | rfl := hseparators c hc
        · exact hslash hhead
        · exact hbackslash hhead
  have hnone : ¬ (P.hasDrives ∧ hasDriveLetter k) := fun h => hdrive h.2
  simp only [Platform.parse, if_neg hnone, hrooted]
  congr 1
  rw [List.filter_eq_self]
  intro comp hcomp
  simpa using (hsound comp hcomp).ne_nil

/-- An accepted key stays below every root on a platform whose separators give sound components. -/
theorem Platform.confined {P : Platform} {k : Bytes} (hk : validateBackendKey k = true)
    (hseparators : ∀ c, P.isSeparator c = true → c = slash ∨ c = backslash)
    (hsound : ∀ comp ∈ k.splitOnP P.isSeparator, SoundComponent comp) (root : PathName) :
    ∃ p, physicalPath P root ⟨k⟩ = .ok p ∧ p.Inside root := by
  have hparse := Platform.parse_accepted hk hseparators hsound
  refine ⟨{ root with components := root.components ++ k.splitOnP P.isSeparator }, ?_, rfl, rfl,
    k.splitOnP P.isSeparator, ?_, ?_⟩
  · simp [physicalPath, hk, hparse, PathName.join]
  · exact List.splitOnP_ne_nil _ _
  · simp only [PathName.lexicallyNormal, List.foldl_append]
    exact normal_step_sound hsound

/-- The pieces that backslashes cut out of the components pass the checks for empty components, dots
and device names, which `validate_backend_key` makes for whole components only. -/
def HiddenPiecesSound (k : Bytes) : Prop :=
  ∀ comp ∈ k.splitOnP (· == slash), backslash ∈ comp →
    ∀ piece ∈ comp.splitOnP (· == backslash),
      piece ≠ [] ∧ piece ≠ dot ∧ piece ≠ dotDot ∧ isReservedWindowsName piece = false

/-- Which accepted keys stay inside the root of a backend. Between slashes every component of an
accepted key is sound, so on a platform whose only separator is the slash the key stays below every
root. Where backslashes separate components too, the components are sound, and the key stays below
every root, exactly if the pieces that backslashes cut out are sound; a key without backslashes has
none. -/
theorem accepted_keys_confined {k : Bytes} (hk : validateBackendKey k = true) :
    ((∀ comp ∈ k.splitOnP (· == slash), SoundComponent comp) ∧
      ∀ root, ∃ p, physicalPath .posix root ⟨k⟩ = .ok p ∧ p.Inside root) ∧
    (((∀ comp ∈ k.splitOnP (fun c => c == slash || c == backslash), SoundComponent comp) ∧
      ∀ root, ∃ p, physicalPath .windows root ⟨k⟩ = .ok p ∧ p.Inside root) ↔
        HiddenPiecesSound k) ∧
    (backslash ∉ k → HiddenPiecesSound k) := by
  obtain ⟨-, hnul, -, -, -, -, hcomponents⟩ := validate_backend_key_iff.mp hk
  have hsound : ∀ comp ∈ k.splitOnP (· == slash), SoundComponent comp := fun comp hcomp =>
    sound_of_component_ok (hcomponents comp hcomp) fun hmem => hnul (mem_of_mem_split hcomp hmem)
  refine ⟨⟨hsound, Platform.confined hk (fun c hc => .inl (eq_of_beq hc)) hsound⟩, ⟨?_, ?_⟩,
    fun hnone comp hcomp hin => absurd (mem_of_mem_split hcomp hin) hnone⟩
  · rintro ⟨hboth, -⟩ comp hcomp - piece hpiece
    rw [split_or] at hboth
    obtain ⟨hnil, hdot, hdotDot, -, -, hreserved⟩ :=
      hboth piece (List.mem_flatMap.mpr ⟨comp, hcomp, hpiece⟩)
    exact ⟨hnil, hdot, hdotDot, hreserved⟩
  · intro hpieces
    have hboth : ∀ piece ∈ k.splitOnP (fun c => c == slash || c == backslash),
        SoundComponent piece := by
      intro piece hpiece
      rw [split_or] at hpiece
      obtain ⟨comp, hcomp, hpiece⟩ := List.mem_flatMap.mp hpiece
      have hcomp' := hsound comp hcomp
      by_cases hin : backslash ∈ comp
      · obtain ⟨hnil, hdot, hdotDot, hreserved⟩ := hpieces comp hcomp hin piece hpiece
        exact ⟨hnil, hdot, hdotDot, fun hmem => hcomp'.no_nul (mem_of_mem_split hpiece hmem),
          fun hmem => hcomp'.no_colon (mem_of_mem_split hpiece hmem), hreserved⟩
      · have hnone : ∀ c ∈ comp, (c == backslash) = false := fun c hc =>
          beq_eq_false_iff_ne.mpr fun heq => hin (heq ▸ hc)
        rw [List.splitOnP_eq_singleton hnone, List.mem_singleton] at hpiece
        exact hpiece ▸ hcomp'
    exact ⟨hboth, Platform.confined hk (fun c hc => by simpa [Platform.windows] using hc) hboth⟩

/-- A key with a backslash. -/
theorem accepted_keys_confined_blob :
    let k := ascii ['b', 'l', 'o', 'b', 's', '/', 'a', '\\', 'a']
    ∃ p, physicalPath .windows { drive := some 67, rooted := true } ⟨k⟩ = .ok p ∧
      p.Inside { drive := some 67, rooted := true } := by
  refine ((accepted_keys_confined (by decide)).2.1.mpr ?_).2 _
  unfold HiddenPiecesSound
  decide

/-- A backslash hides a traversal inside a component: the key "a\..\..\x" is accepted, and where
backslashes are separators it leads out of the root "C:/r" to "C:/x". -/
theorem accepted_key_escapes :
    let k := ascii ['a', '\\', '.', '.', '\\', '.', '.', '\\', 'x']
    let root : PathName := { drive := some 67, rooted := true, components := [ascii ['r']] }
    validateBackendKey k = true ∧
      dotDot ∈ k.splitOnP (fun c => c == slash || c == backslash) ∧
      ∃ p, physicalPath .windows root ⟨k⟩ = .ok p ∧ ¬ p.Inside root ∧
        p.lexicallyNormal =
          { drive := some 67, rooted := true, components := [ascii ['x']] } := by
  intro k root
  refine ⟨by decide, by decide, _, rfl, ?_, by decide⟩
  rintro ⟨-, -, below, -, hcomponents⟩
  have hnormal : (root.join (Platform.windows.parse k)).lexicallyNormal.components =
      [ascii ['x']] := by
    decide
  rw [hnormal] at hcomponents
  exact absurd (List.cons.inj hcomponents).1 (by decide)

end CheckpointStore
