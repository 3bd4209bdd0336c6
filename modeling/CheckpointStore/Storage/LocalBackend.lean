import CheckpointStore.Foundation.FileTree
import CheckpointStore.Storage.Backend
import CheckpointStore.Storage.Keys

/-!
# The backend on a file system

After `local_backend.cpp`: objects are files below a root, written under a temporary name and moved
to their place by `commit`. The system may refuse any call, and may have done a part of it by then
(`LocalSite.refuses`). A blob has its own place below the root (`LocalSite.blob_location`) and its
own temporary names (`temp_name_inj`), on every platform.
-/

namespace CheckpointStore

open Foundation Foundation.Procedure

/-! ## The system -/

/-- The calls of the file system that the backend makes. -/
inductive SystemCall where
  | status | openForWriting | write | openForReading | read | createDirectories | remove | rename
  deriving DecidableEq

/-- What is fixed while a backend is open. -/
structure LocalSite where
  platform : Platform
  root : PathName
  /-- The answer to a call, which depends on how many calls there were before: `none` if the system
  carries it out, and `some k` if it refuses it after `k` bytes or directories. -/
  refuses : SystemCall → Nat → Option Nat
  slash_separates : platform.isSeparator slash = true
  separators : ∀ c, platform.isSeparator c = true → c = slash ∨ c = backslash

/-- The members of `LocalBackend` that change, with the file system and the number of calls made. -/
structure LocalBackend where
  tree : FileTree Bytes UInt8
  seq : UInt64 := 0
  staged : UnorderedMap BackendKey PathName := ∅
  calls : Nat := 0

/-- The place of a path in the file system. -/
def PathName.location (p : PathName) : List Bytes := p.lexicallyNormal.components

/-- `parent_path`. -/
def PathName.parentPath (p : PathName) : PathName := { p with components := p.components.dropLast }

namespace LocalSite

variable (site : LocalSite)

/-- Ask the operating system for a call: it refuses with an error code, or not. -/
def ask (call : SystemCall) : Proc LocalBackend (Option Nat) := do
  let b ← get
  set { b with calls := b.calls + 1 }
  pure (site.refuses call b.calls)

/-- What is under a path, as far as the system tells. -/
def status (p : PathName) : Proc LocalBackend (Option (Node UInt8)) := do
  let refused ← site.ask .status
  let b ← get
  pure (if refused.isSome then none else b.tree.find p.location)

/-- `std::filesystem::exists`. -/
def fileExists (p : PathName) : Proc LocalBackend Bool := do
  let found ← site.status p
  pure found.isSome

/-- `std::filesystem::is_directory`. -/
def isDirectory (p : PathName) : Proc LocalBackend Bool := do
  let found ← site.status p
  pure (decide (found = some .directory))

/-- Open a `std::ofstream` with `trunc`; `false` if that fails. -/
def openForWriting (p : PathName) : Proc LocalBackend Bool := do
  let refused ← site.ask .openForWriting
  let b ← get
  match refused, b.tree.write p.location [] with
  | none, some tree => do
      set { b with tree }
      pure true
  | _, _ => pure false

/-- `write`, `flush` and `good` of a stream that is open on a path. -/
def writeFile (p : PathName) (data : Bytes) : Proc LocalBackend Bool := do
  let refused ← site.ask .write
  let b ← get
  let written := match refused with
    | none => data
    | some k => data.take k
  match b.tree.write p.location written with
  | none => pure false
  | some tree => do
      set { b with tree }
      pure refused.isNone

/-- Open a `std::ifstream`; the content of the file, or nothing if that fails. -/
def openForReading (p : PathName) : Proc LocalBackend (Option Bytes) := do
  let refused ← site.ask .openForReading
  let b ← get
  pure (if refused.isSome then none else b.tree.fileAt p.location)

/-- `std::filesystem::create_directories`; `false` for an error. -/
def createDirectories (p : PathName) : Proc LocalBackend Bool := do
  let refused ← site.ask .createDirectories
  let b ← get
  let path := match refused with
    | none => p.location
    | some k => p.location.take k
  match b.tree.createDirectories path with
  | none => pure false
  | some tree => do
      set { b with tree }
      pure refused.isNone

/-- `std::filesystem::remove`. -/
def removeFile (p : PathName) : Proc LocalBackend Bool := do
  let refused ← site.ask .remove
  let b ← get
  match refused, b.tree.remove p.location with
  | none, some tree => do
      set { b with tree }
      pure true
  | _, _ => pure false

/-- `std::filesystem::rename`; `false` for an error. -/
def renameFile (source target : PathName) : Proc LocalBackend Bool := do
  let refused ← site.ask .rename
  let b ← get
  match refused, b.tree.rename source.location target.location with
  | none, some tree => do
      set { b with tree }
      pure true
  | _, _ => pure false

end LocalSite

/-! ## The source -/

/-- A key as one file name. -/
def flattenKey (key : Bytes) : Bytes := key.map fun c => if c = slash then 95 else c

/-- The directories under the root. -/
def controlledDirectories : List Bytes :=
  [ascii ['b', 'l', 'o', 'b', 's'], ascii ['t', 'e', 'm', 'p'],
    ascii ['q', 'u', 'a', 'r', 'a', 'n', 't', 'i', 'n', 'e'],
    ascii ['m', 'a', 'n', 'i', 'f', 'e', 's', 't', 's'],
    ascii ['m', 'e', 't', 'a', 'd', 'a', 't', 'a']]

namespace LocalBackend

variable (site : LocalSite)

/-- The name of the temporary file with a number. -/
def tempName (key : BackendKey) (seq : UInt64) : Bytes :=
  flattenKey key.value ++ ascii ['_'] ++ ascii (Nat.toDigits 10 seq.toNat) ++
    ascii ['.', 't', 'm', 'p']

/-- The constructor. -/
def construct : Proc LocalBackend Unit := do
  if site.root = {} then throwStoreError .invalidArgument "local backend root is empty"
  else do
    let created ← site.createDirectories site.root
    if created then pure ()
    else do
      -- this `exists` has no error code, so a refused status is an exception
      let refused ← site.ask .status
      let b ← get
      if refused.isSome then throw .foreign
      else if b.tree.find site.root.location |>.isSome then pure ()
      else throwStoreError .io "cannot create local backend root"
    forM controlledDirectories fun sub => do
      let _ ← site.createDirectories (site.root.join (site.platform.parse sub))

/-- The path that `temp_path` makes of a number. -/
def tempPathOf (key : BackendKey) (seq : UInt64) : PathName :=
  (site.root.join (site.platform.parse (ascii ['t', 'e', 'm', 'p']))).join
    (site.platform.parse (tempName key seq))

/-- The next temporary path for a key. -/
def tempPath (key : BackendKey) : Proc LocalBackend PathName := do
  if validateBackendKey key.value then do
    modify fun b => { b with seq := b.seq + 1 }
    let b ← get
    pure (tempPathOf site key b.seq)
  else throwStoreError .invalidArgument "invalid backend key"

/-- Write the data to a temporary file and stage it. -/
def putTemp (key : BackendKey) (data : Bytes) : Proc LocalBackend Unit := do
  let _ ← fromExcept (physicalPath site.platform site.root key)
  let tmp ← tempPath site key
  let opened ← site.openForWriting tmp
  if !opened then throwStoreError .io "cannot open temp for write"
  else do
    let good ← site.writeFile tmp data
    if !good then throwStoreError .io "temp write failed"
    else modify fun b => { b with staged := b.staged.assign key tmp }

/-- The lines that both `commit`s end with. -/
def replaceFile (tmp final : PathName) : Proc LocalBackend Unit := do
  let present ← site.fileExists final
  if present then do
    let _ ← site.removeFile final
  let _ ← site.createDirectories final.parentPath
  let moved ← site.renameFile tmp final
  if moved then pure () else throwStoreError .io "commit rename failed"

/-- Move the staged file to its final path. -/
def commit (key : BackendKey) : Proc LocalBackend Unit := do
  let b ← get
  match b.staged.find key with
  | none => throwStoreError .transaction "commit called for unstaged key"
  | some tmp => do
      let final ← fromExcept (physicalPath site.platform site.root key)
      replaceFile site tmp final
      modify fun b => { b with staged := b.staged.erase key }

/-- The `commit` of a temporary object under a key of its own. -/
def commitTo (tempKey finalKey : BackendKey) : Proc LocalBackend Unit := do
  let tmp ← fromExcept (physicalPath site.platform site.root tempKey)
  let final ← fromExcept (physicalPath site.platform site.root finalKey)
  replaceFile site tmp final

/-- What a read gives that ends early: the buffer has the size of the file. -/
def readBuffer (content : Bytes) : Option Nat → Bytes
  | none => content
  | some k => content.take k ++ List.replicate (content.length - k) 0

/-- Read the object of a key. -/
def read (key : BackendKey) : Proc LocalBackend Bytes := do
  let p ← fromExcept (physicalPath site.platform site.root key)
  let opened ← site.openForReading p
  match opened with
  | none => throwStoreError .notFound "backend object not found"
  | some content =>
      if content.isEmpty then pure []
      else do
        let refused ← site.ask .read
        pure (readBuffer content refused)

/-- Whether a key has an object. -/
def existsKey (key : BackendKey) : Proc LocalBackend Bool := do
  let p ← fromExcept (physicalPath site.platform site.root key)
  site.fileExists p

/-- Remove the object of a key. -/
def remove (key : BackendKey) : Proc LocalBackend Bool := do
  let p ← fromExcept (physicalPath site.platform site.root key)
  site.removeFile p

/-- The size of an object, 0 without one. -/
def stat (key : BackendKey) : Proc LocalBackend UInt64 := do
  let p ← fromExcept (physicalPath site.platform site.root key)
  let found ← site.status p
  match found with
  | some (.file content) => pure (byteSize content)
  | _ => pure 0

/-- The loop of `verify`, with `rest` still to be read. A round that gets less than a full buffer is
the last one, and every other takes at least one byte, so one round more than there are bytes is
enough. -/
def hashLoop (H : StreamHash) : Nat → H.State → Bytes → Proc LocalBackend H.State
  | 0, hasher, _ => pure hasher
  | bound + 1, hasher, rest => do
      let refused ← site.ask .read
      let got := match refused with
        | none => rest.take 65536
        | some k => (rest.take 65536).take k
      let hasher := if got.isEmpty then hasher else H.update hasher got
      if refused.isSome || got.length < 65536 then pure hasher
      else hashLoop H bound hasher (rest.drop 65536)

/-- Compare the hash of an object. -/
def verify (H : StreamHash) (key : BackendKey) (expected : Digest) :
    Proc LocalBackend IntegrityState := do
  let p ← fromExcept (physicalPath site.platform site.root key)
  let present ← site.fileExists p
  if !present then pure .missing
  else do
    let opened ← site.openForReading p
    match opened with
    | none => pure .missing
    | some content => do
        let hasher ← hashLoop site H (content.length + 1) H.init content
        pure (if H.final hasher = expected then .verified else .corrupt)

/-- Whether the root is a directory. -/
def health : Proc LocalBackend Bool := site.isDirectory site.root

/-- The methods that the store calls. -/
def backend (H : StreamHash) : IBackend LocalBackend where
  putTemp := putTemp site
  commit := commit site
  read := read site
  existsKey := existsKey site
  remove := remove site
  verify := verify site H
  health := health site

end LocalBackend

/-! ## Where blobs are kept -/

/-- The characters of `kHex`. -/
def IsHexCharacter (c : UInt8) : Prop := (48 ≤ c ∧ c ≤ 57) ∨ (97 ≤ c ∧ c ≤ 102)

theorem hex_digit_character {n : UInt8} (h : n.toNat < 16) : IsHexCharacter (hexDigit n) := by
  have hall : ∀ m < 16, (48 ≤ hexDigit (UInt8.ofNat m) ∧ hexDigit (UInt8.ofNat m) ≤ 57) ∨
      (97 ≤ hexDigit (UInt8.ofNat m) ∧ hexDigit (UInt8.ofNat m) ≤ 102) := by decide
  unfold IsHexCharacter
  simpa using hall n.toNat h

/-- A digest is written in hexadecimal characters. -/
theorem hex_character {d : Digest} {c : UInt8} (h : c ∈ hex d) : IsHexCharacter c := by
  obtain ⟨byte, -, hc⟩ := List.mem_flatMap.mp h
  have hlt : byte.toNat < 256 := byte.toNat_lt
  simp only [hexByte, List.mem_cons, List.not_mem_nil, or_false] at hc
  rcases hc with rfl | rfl
  · refine hex_digit_character ?_
    rw [UInt8.toNat_shiftRight, Nat.shiftRight_eq_div_pow]
    show byte.toNat / 2 ^ 4 < 16
    omega
  · refine hex_digit_character ?_
    rw [UInt8.toNat_and]
    have hmod : byte.toNat &&& 15 = byte.toNat % 16 := Nat.and_two_pow_sub_one_eq_mod byte.toNat 4
    show byte.toNat &&& 15 < 16
    omega

/-- A hexadecimal character is none of the special ones. -/
theorem IsHexCharacter.ne {c : UInt8} (h : IsHexCharacter c) :
    c ≠ 0 ∧ c ≠ 32 ∧ c ≠ 46 ∧ c ≠ slash ∧ c ≠ colon ∧ c ≠ backslash := by
  refine ⟨?_, ?_, ?_, ?_, ?_, ?_⟩ <;> rintro rfl <;> revert h <;> unfold IsHexCharacter <;> decide

/-- A character that is special in no path. -/
def isPlain (c : UInt8) : Bool := c != 0 && c != slash && c != backslash && c != colon

theorem ne_of_plain {text : Bytes} (h : text.all isPlain = true) {c : UInt8} (hc : c ∈ text) :
    c ≠ 0 ∧ c ≠ slash ∧ c ≠ backslash ∧ c ≠ colon := by
  simpa [isPlain, and_assoc] using List.all_eq_true.mp h c hc

/-- The names of devices have three, four, six or seven characters. -/
theorem not_reserved_of_length {comp : Bytes} (h : ∀ n ∈ [3, 4, 6, 7], comp.length ≠ n) :
    isReservedWindowsName comp = false := by
  have hlower : (comp.map toLower).length = comp.length := List.length_map _
  have hnames : ∀ name ∈ reservedNames, name.length ∈ [3, 4, 6, 7] := by decide
  have hcontains : reservedNames.contains (comp.map toLower) = false := by
    rw [← Bool.not_eq_true, List.contains_iff_mem]
    intro hmem
    exact h _ (hnames _ hmem) hlower.symm
  have hdigits : ∀ letters, digitsOk (comp.map toLower) letters = false := by
    intro letters
    rw [digitsOk, decide_eq_false_iff_not]
    rintro ⟨hfour, -⟩
    exact h 4 (by decide) (hlower ▸ hfour)
  simp only [isReservedWindowsName, hcontains, hdigits, Bool.or_self]

/-- A component is accepted that has none of the characters the checks look for, and is too long for
the name of a device or too short. -/
theorem component_ok_of_plain {comp : Bytes} (hne : comp ≠ []) (hshort : comp.length ≤ 255)
    (hplain : ∀ c ∈ comp, c ≠ 46 ∧ c ≠ 32 ∧ c ≠ colon)
    (hlength : ∀ n ∈ [3, 4, 6, 7], comp.length ≠ n) : componentOk comp = true := by
  have hhead : ∀ c, comp.head? = some c → c ≠ 46 := fun c hc =>
    (hplain c (List.mem_of_mem_head? hc)).1
  have hlast : ∀ c, comp.getLast? = some c → c ≠ 46 ∧ c ≠ 32 := fun c hc =>
    ⟨(hplain c (List.mem_of_getLast? hc)).1, (hplain c (List.mem_of_getLast? hc)).2.1⟩
  have hcolon : colon ∉ comp := fun hmem => (hplain _ hmem).2.2 rfl
  simp only [componentOk, refuse_iff, List.isEmpty_iff, not_or, Bool.not_eq_true]
  refine ⟨hne, ⟨?_, ?_⟩, ?_, hcolon, by omega, ⟨fun h => hhead _ h rfl, fun h => (hlast _ h).1 rfl⟩,
    fun h => (hlast _ h).2 rfl, not_reserved_of_length hlength, trivial⟩
  · rintro rfl
    exact hhead 46 rfl rfl
  · rintro rfl
    exact hhead 46 rfl rfl
  · intro hinside
    exact hcolon (hinside.subset (by decide))

/-- A hexadecimal component is accepted. -/
theorem component_ok_of_hex {comp : Bytes} (hne : comp ≠ []) (hshort : comp.length ≤ 255)
    (hhex : ∀ c ∈ comp, IsHexCharacter c) (hlength : ∀ n ∈ [3, 4, 6, 7], comp.length ≠ n) :
    componentOk comp = true :=
  component_ok_of_plain hne hshort
    (fun c hc => ⟨(hhex c hc).ne.2.2.1, (hhex c hc).ne.2.1, (hhex c hc).ne.2.2.2.2.1⟩) hlength

/-- The components of the key of a blob. -/
def blobComponents (d : Digest) : List Bytes :=
  [ascii ['b', 'l', 'o', 'b', 's'], blobPrefix d, hex d]

theorem prefix_character {d : Digest} {c : UInt8} (h : c ∈ blobPrefix d) : IsHexCharacter c :=
  hex_character (List.mem_of_mem_take h)

theorem prefix_length (d : Digest) : (blobPrefix d).length = 2 := by
  rw [blobPrefix, List.length_take, hex_length]
  rfl

/-- Slashes cut the key of a blob into its components, also where backslashes do. -/
theorem split_blob_key {p : UInt8 → Bool} (hslash : p slash = true)
    (honly : ∀ c, p c = true → c = slash ∨ c = backslash) (d : Digest) :
    (blobKey d).value.splitOnP p = blobComponents d := by
  have hnot : ∀ c, c ≠ slash → c ≠ backslash → p c = false := fun c h h' =>
    Bool.eq_false_iff.mpr fun hc => (honly c hc).elim h h'
  have hhex : ∀ c, IsHexCharacter c → p c = false := fun c hc =>
    hnot c hc.ne.2.2.2.1 hc.ne.2.2.2.2.2
  have hfirst : ∀ c ∈ ascii ['b', 'l', 'o', 'b', 's'], p c = false := by
    intro c hc
    obtain ⟨-, hslash, hbackslash, -⟩ := ne_of_plain (by decide) hc
    exact hnot c hslash hbackslash
  have hvalue : (blobKey d).value = ascii ['b', 'l', 'o', 'b', 's'] ++
      slash :: (blobPrefix d ++ slash :: hex d) := by
    simp only [blobKey, List.append_assoc]
    rfl
  rw [hvalue, List.splitOnP_append_cons_of_forall_mem hfirst slash hslash,
    List.splitOnP_append_cons_of_forall_mem (fun c hc => hhex c (prefix_character hc)) slash hslash,
    List.splitOnP_eq_singleton fun c hc => hhex c (hex_character hc)]
  rfl

/-- The components of a blob key are accepted and safe. -/
theorem blob_components_sound {d : Digest} {comp : Bytes} (h : comp ∈ blobComponents d) :
    componentOk comp = true ∧ SoundComponent comp := by
  have hok : componentOk comp = true ∧ 0 ∉ comp := by
    simp only [blobComponents, List.mem_cons, List.not_mem_nil, or_false] at h
    rcases h with rfl | rfl | rfl
    · decide
    · refine ⟨component_ok_of_hex ?_ ?_ (fun c => prefix_character) ?_,
        fun hmem => (prefix_character hmem).ne.1 rfl⟩
      · exact List.ne_nil_of_length_pos (by rw [prefix_length]; omega)
      · rw [prefix_length]; omega
      · rw [prefix_length]; decide
    · refine ⟨component_ok_of_hex ?_ ?_ (fun c => hex_character) ?_,
        fun hmem => (hex_character hmem).ne.1 rfl⟩
      · exact List.ne_nil_of_length_pos (by rw [hex_length]; omega)
      · rw [hex_length]; omega
      · rw [hex_length]; decide
  exact ⟨hok.1, sound_of_component_ok hok.1 hok.2⟩

/-- The keys of blobs are accepted. -/
theorem blob_key_accepted (d : Digest) : validateBackendKey (blobKey d).value = true := by
  have hsplit : (blobKey d).value.splitOnP (· == slash) = blobComponents d :=
    split_blob_key (by decide) (fun c hc => .inl (eq_of_beq hc)) d
  rw [validate_backend_key_iff, hsplit]
  refine ⟨List.cons_ne_nil _ _, ?_, ?_, ?_, ?_, ?_, fun comp hcomp =>
    (blob_components_sound hcomp).1⟩
  · simp only [blobKey, List.mem_append, not_or]
    exact ⟨⟨⟨by decide, fun h => (prefix_character h).ne.1 rfl⟩, by decide⟩,
      fun h => (hex_character h).ne.1 rfl⟩
  · simp only [blobKey, List.length_append, prefix_length, hex_length]
    decide
  · exact fun h => absurd (Option.some.inj h) (by decide)
  · exact fun h => absurd (Option.some.inj h) (by decide)
  · rintro ⟨-, -, hcolon⟩
    exact absurd (show (108 : UInt8) = colon from hcolon) (by decide)

/-- A text without separators and without a drive is one name. -/
theorem parse_name {P : Platform} {name : Bytes} (hne : name ≠ [])
    (hplain : ∀ c ∈ name, P.isSeparator c = false ∧ c ≠ colon) :
    P.parse name = { components := [name] } := by
  have hdrive : ¬ (P.hasDrives ∧ hasDriveLetter name) := by
    rintro ⟨-, hlength, -, hcolon⟩
    have hget : name.getD 1 0 = name[1] := by
      rw [List.getD_eq_getElem?_getD, List.getElem?_eq_getElem (by omega), Option.getD_some]
    exact (hplain _ (List.getElem_mem _)).2 (hget ▸ hcolon)
  have hrooted : name.head?.any P.isSeparator = false := by
    cases hhead : name.head? with
    | none => rfl
    | some c => exact (hplain c (List.mem_of_mem_head? hhead)).1
  simp only [Platform.parse, if_neg hdrive, hrooted,
    List.splitOnP_eq_singleton fun c hc => (hplain c hc).1]
  simp [hne]

namespace LocalSite

variable (site : LocalSite)

/-- The path below the root with these names. -/
def below (names : List Bytes) : PathName :=
  { site.root with components := site.root.components ++ names }

variable {site}

/-- Paths under the root are joined by their names. -/
theorem join_below {names names' : List Bytes} :
    (site.below names).join { components := names' } = site.below (names ++ names') := by
  simp [PathName.join, below, List.append_assoc]

theorem root_join {names : List Bytes} :
    site.root.join { components := names } = site.below names := by
  simp [PathName.join, below]

/-- A path of safe names stays under the root. -/
theorem location_below {names : List Bytes} (h : ∀ name ∈ names, SoundComponent name) :
    (site.below names).location = site.root.location ++ names := by
  simp only [PathName.location, PathName.lexicallyNormal, below, List.foldl_append]
  exact normal_step_sound h

/-- The file of a blob key. -/
theorem physical_path_blob (d : Digest) :
    physicalPath site.platform site.root (blobKey d) = .ok (site.below (blobComponents d)) := by
  have hkey := blob_key_accepted d
  have hsplit := split_blob_key site.slash_separates site.separators d
  have hparse := Platform.parse_accepted hkey site.separators
    (by rw [hsplit]; exact fun _ h => (blob_components_sound h).2)
  simp only [physicalPath, hkey, Bool.not_true, Bool.false_eq_true, if_false, hparse, hsplit,
    root_join]

/-- Where that file is. -/
theorem blob_location (d : Digest) :
    (site.below (blobComponents d)).location = site.root.location ++ blobComponents d :=
  location_below fun _ h => (blob_components_sound h).2

end LocalSite

theorem digit_range {c : Char} (h : c.isDigit = true) : 48 ≤ c.toNat ∧ c.toNat ≤ 57 := by
  simp only [Char.isDigit, Bool.and_eq_true, decide_eq_true_eq, ge_iff_le,
    UInt32.le_iff_toNat_le] at h
  exact h

theorem digit_byte {c : Char} (h : c.isDigit = true) : (UInt8.ofNat c.toNat).toNat = c.toNat :=
  UInt8.toNat_ofNat_of_lt' (Nat.lt_of_le_of_lt (digit_range h).2 (by decide))

/-- A number is told from its decimal digits. -/
theorem ascii_digits_inj {m n : Nat}
    (h : ascii (Nat.toDigits 10 m) = ascii (Nat.toDigits 10 n)) : m = n := by
  have hback : ∀ k : Nat, (ascii (Nat.toDigits 10 k)).map (fun x => Char.ofNat x.toNat) =
      Nat.toDigits 10 k := by
    intro k
    rw [ascii, List.map_map]
    refine (List.map_congr_left fun c hc => ?_).trans (List.map_id _)
    have hdigit := Nat.isDigit_of_mem_toDigits (by omega) (by omega) hc
    show Char.ofNat (UInt8.ofNat c.toNat).toNat = c
    rw [digit_byte hdigit, Char.ofNat_toNat]
  have hdigits : Nat.toDigits 10 m = Nat.toDigits 10 n := by rw [← hback m, ← hback n, h]
  rw [← Nat.ofDigitChars_ten_toDigits (n := m), hdigits, Nat.ofDigitChars_ten_toDigits]

/-- The flat name of a blob key. -/
theorem flatten_blob_key (d : Digest) :
    flattenKey (blobKey d).value =
      ascii ['b', 'l', 'o', 'b', 's', '_'] ++ blobPrefix d ++ ascii ['_'] ++ hex d := by
  have hhex : ∀ xs : Bytes, (∀ c ∈ xs, IsHexCharacter c) → flattenKey xs = xs := by
    intro xs hxs
    refine (List.map_congr_left fun c hc => ?_).trans (List.map_id _)
    exact if_neg (hxs c hc).ne.2.2.2.1
  have happend : ∀ xs ys : Bytes, flattenKey (xs ++ ys) = flattenKey xs ++ flattenKey ys :=
    fun xs ys => List.map_append
  rw [blobKey]
  simp only [happend, hhex _ fun c => hex_character, hhex _ fun c => prefix_character]
  rfl

theorem flatten_blob_key_length (d : Digest) : (flattenKey (blobKey d).value).length = 73 := by
  simp only [flatten_blob_key, List.length_append, prefix_length, hex_length]
  rfl

namespace LocalBackend

/-- Temporary names of blobs have no character that is special in a path. -/
theorem temp_name_character {d : Digest} {n : UInt64} {c : UInt8}
    (h : c ∈ tempName (blobKey d) n) : c ≠ 0 ∧ c ≠ slash ∧ c ≠ backslash ∧ c ≠ colon := by
  have hdigits : ∀ c ∈ ascii (Nat.toDigits 10 n.toNat), IsHexCharacter c := by
    intro c hc
    obtain ⟨x, hx, rfl⟩ := List.mem_map.mp hc
    have hdigit := Nat.isDigit_of_mem_toDigits (by omega) (by omega) hx
    have hrange := digit_range hdigit
    refine .inl ⟨UInt8.le_iff_toNat_le.mpr ?_, UInt8.le_iff_toNat_le.mpr ?_⟩
    · rw [digit_byte hdigit]
      exact hrange.1
    · rw [digit_byte hdigit]
      exact hrange.2
  have hplain : ∀ c, IsHexCharacter c → c ≠ 0 ∧ c ≠ slash ∧ c ≠ backslash ∧ c ≠ colon :=
    fun c hc => ⟨hc.ne.1, hc.ne.2.2.2.1, hc.ne.2.2.2.2.2, hc.ne.2.2.2.2.1⟩
  rw [tempName, flatten_blob_key] at h
  simp only [List.mem_append] at h
  rcases h with (((((h | h) | h) | h) | h) | h) | h
  · exact ne_of_plain (by decide) h
  · exact hplain c (prefix_character h)
  · exact ne_of_plain (by decide) h
  · exact hplain c (hex_character h)
  · exact ne_of_plain (by decide) h
  · exact hplain c (hdigits c h)
  · exact ne_of_plain (by decide) h

/-- A temporary name tells the blob and the number. -/
theorem temp_name_inj {d d' : Digest} {n n' : UInt64}
    (h : tempName (blobKey d) n = tempName (blobKey d') n') : d = d' ∧ n = n' := by
  simp only [tempName, List.append_assoc] at h
  obtain ⟨hkey, hrest⟩ := List.append_inj h
    (by rw [flatten_blob_key_length, flatten_blob_key_length])
  rw [flatten_blob_key, flatten_blob_key] at hkey
  have hhex := (List.append_inj' hkey (by rw [hex_length, hex_length])).2
  have hdigits := List.append_cancel_right (List.append_cancel_left hrest)
  exact ⟨hex_injective hhex, UInt64.toNat_inj.mp (ascii_digits_inj hdigits)⟩

theorem temp_name_length (d : Digest) (n : UInt64) : 73 < (tempName (blobKey d) n).length := by
  simp only [tempName, List.length_append, flatten_blob_key_length]
  have hsuffix : (ascii ['.', 't', 'm', 'p']).length = 4 := rfl
  omega

/-- A temporary name is safe. -/
theorem temp_name_sound (d : Digest) (n : UInt64) : SoundComponent (tempName (blobKey d) n) := by
  have hlength := temp_name_length d n
  have hlonger : ∀ xs : Bytes, xs.length ≤ 73 → tempName (blobKey d) n ≠ xs := by
    rintro xs hxs rfl
    omega
  exact
    { ne_nil := hlonger _ (by decide)
      ne_dot := hlonger _ (by decide)
      ne_dot_dot := hlonger _ (by decide)
      no_nul := fun hmem => (temp_name_character hmem).1 rfl
      no_colon := fun hmem => (temp_name_character hmem).2.2.2 rfl
      not_reserved := not_reserved_of_length fun m hm => by
        have hsmall : ∀ m ∈ [3, 4, 6, 7], m < 73 := by decide
        have := hsmall m hm
        omega }

variable {site : LocalSite}

/-- The temporary file of a blob key. -/
theorem temp_path_of_blob (d : Digest) (n : UInt64) :
    tempPathOf site (blobKey d) n =
      site.below [ascii ['t', 'e', 'm', 'p'], tempName (blobKey d) n] := by
  have hplain : ∀ c, c ≠ slash → c ≠ backslash → site.platform.isSeparator c = false :=
    fun c h h' => Bool.eq_false_iff.mpr fun hc => (site.separators c hc).elim h h'
  have hdirectory : site.platform.parse (ascii ['t', 'e', 'm', 'p']) =
      { components := [ascii ['t', 'e', 'm', 'p']] } := by
    refine parse_name (by decide) fun c hc => ?_
    obtain ⟨-, hslash, hbackslash, hcolon⟩ := ne_of_plain (by decide) hc
    exact ⟨hplain c hslash hbackslash, hcolon⟩
  have hname : site.platform.parse (tempName (blobKey d) n) =
      { components := [tempName (blobKey d) n] } := by
    refine parse_name (temp_name_sound d n).ne_nil fun c hc => ?_
    obtain ⟨-, hslash, hbackslash, hcolon⟩ := temp_name_character hc
    exact ⟨hplain c hslash hbackslash, hcolon⟩
  rw [tempPathOf, hdirectory, hname, LocalSite.root_join, LocalSite.join_below]
  rfl

/-- Where that file is. -/
theorem temp_location (d : Digest) (n : UInt64) :
    (tempPathOf site (blobKey d) n).location =
      site.root.location ++ [ascii ['t', 'e', 'm', 'p'], tempName (blobKey d) n] := by
  rw [temp_path_of_blob]
  refine LocalSite.location_below fun name hname => ?_
  obtain rfl | hname := List.mem_cons.mp hname
  · exact sound_of_component_ok (by decide) (by decide)
  · rw [List.mem_singleton.mp hname]
    exact temp_name_sound d n

end LocalBackend
end CheckpointStore
