/-
The objects of a transaction's data: `objects.rs`, `object_fields.rs` and `validate_manifest` of
`remote_objects.rs`.

The offsets section of a transaction lists where the objects stand in its data. `validate` reads
the whole table: each entry must be aligned, must not reach into the object before it, and must
point at a complete object of a known kind. An `Object` carries that it is complete, which is
what makes reading its fields safe.

References to nodes are described beside the data by a manifest, one entry per object in their
order; `validate_manifest` compares the two.

Allocation failure is left out, and so are the errors that only other functions report.
-/
import DarwinArt.Lib.Fallible
import DarwinArt.Binder.AuthorityProtocol
import DarwinArt.Binder.NodeWork
import DarwinArt.Binder.TransactionLayout

set_option autoImplicit false
set_option linter.dupNamespace false

namespace DarwinArt.Binder

open Lib

namespace Objects

/-! ## Kinds -/

inductive Kind
  | Binder | WeakBinder | Handle | WeakHandle | Fd | Buffer | FdArray
deriving DecidableEq, Repr

/-- The three letters of a tag. -/
def Kind.letters : Kind → ℕ × ℕ × ℕ
  | Binder => (0x73, 0x62, 0x2a)
  | WeakBinder => (0x77, 0x62, 0x2a)
  | Handle => (0x73, 0x68, 0x2a)
  | WeakHandle => (0x77, 0x68, 0x2a)
  | Fd => (0x66, 0x64, 0x2a)
  | Buffer => (0x70, 0x74, 0x2a)
  | FdArray => (0x66, 0x64, 0x61)

/-- `Kind::tag`: the letters and `0x85`, big-endian. -/
def Kind.tag (kind : Kind) : ℕ :=
  let (a, b, c) := kind.letters
  a * 2 ^ 24 + b * 2 ^ 16 + c * 2 ^ 8 + 0x85

def Kind.size : Kind → ℕ
  | Buffer => 40
  | FdArray => 32
  | _ => 24

/-- The kinds in the order `validate` tries them. -/
def Kind.all : List Kind := [Binder, WeakBinder, Handle, WeakHandle, Fd, Buffer, FdArray]

/-! ## The table of offsets -/

inductive Error
  | OffsetTableSize | InvalidOffset | UnknownType (tag : ℕ) | IncompleteObject
deriving DecidableEq, Repr

structure Object where
  kind : Kind
  offset : ℕ
  bytes : List UInt8
  complete : bytes.length = kind.size

/-- One turn of the loop of `validate`: the object that an entry of the table points at. -/
def object_at (data : List UInt8) (minimum : ℕ) (encoded : List UInt8) : Except Error Object := do
  let offset := fromLe encoded
  ensure (minimum ≤ offset ∧ offset % 4 = 0) .InvalidOffset
  let header_end ← okOr (checked_add 64 offset 4) .InvalidOffset
  ensure (header_end ≤ data.length) .IncompleteObject
  let tag := fromLe (slice data offset header_end)
  let kind ← okOr (Kind.all.find? fun kind => kind.tag == tag) (.UnknownType tag)
  let stop ← okOr (checked_add 64 offset kind.size) .InvalidOffset
  -- the first half is what `checked_add` returned
  if h : stop = offset + kind.size ∧ stop ≤ data.length then
    return ⟨kind, offset, slice data offset stop, by rw [length_slice h.2, h.1]; omega⟩
  else throw .IncompleteObject

/-- The loop of `validate` over the entries of the table. -/
def validate_entries (data : List UInt8) : ℕ → List (List UInt8) → Except Error (List Object)
  | _, [] => .ok []
  | minimum, encoded :: rest => do
    let object ← object_at data minimum encoded
    let objects ← validate_entries data (object.offset + object.kind.size) rest
    return object :: objects

/-- `chunks_exact(8)`. -/
def entries (offsets : List UInt8) : List (List UInt8) :=
  (List.range (offsets.length / 8)).map fun i => slice offsets (8 * i) (8 * i + 8)

def validate (data offsets : List UInt8) : Except Error (List Object) := do
  ensure (offsets.length % 8 = 0) .OffsetTableSize
  validate_entries data 0 (entries offsets)

/-! ## Fields -/

inductive Fields
  | Node (weak : Bool) (flags : UInt32) (pointer cookie : UInt64)
  | Handle (weak : Bool) (flags handle : UInt32) (cookie : UInt64)
  | Fd (fd : UInt32) (cookie : UInt64)
  | Buffer (flags : UInt32) (pointer length parent parent_offset : UInt64)
  | FdArray (count parent parent_offset : UInt64)
deriving DecidableEq

namespace Object

variable {ε : Type} {object : Object}

section

variable (object : Object)

/-- `word` of `fields`. -/
def word (offset : ℕ) : Except (Fault ε) UInt32 := do
  return UInt32.ofNat (fromLe (← indexRange object.bytes offset (offset + 4)))

/-- `wide` of `fields`. -/
def wide (offset : ℕ) : Except (Fault ε) UInt64 := do
  return UInt64.ofNat (fromLe (← indexRange object.bytes offset (offset + 8)))

def fields : Except (Fault ε) Fields :=
  match object.kind with
  | .Binder | .WeakBinder => do
    return .Node (object.kind = .WeakBinder) (← object.word 4) (← object.wide 8)
      (← object.wide 16)
  | .Handle | .WeakHandle => do
    return .Handle (object.kind = .WeakHandle) (← object.word 4) (← object.word 8)
      (← object.wide 16)
  | .Fd => do return .Fd (← object.word 8) (← object.wide 16)
  | .Buffer => do
    return .Buffer (← object.word 4) (← object.wide 8) (← object.wide 16) (← object.wide 24)
      (← object.wide 32)
  | .FdArray => do return .FdArray (← object.wide 8) (← object.wide 16) (← object.wide 24)

theorem word_of {offset : ℕ} (h : offset + 4 ≤ object.kind.size) :
    (object.word offset : Except (Fault ε) UInt32) =
      .ok (UInt32.ofNat (readLe 4 object.bytes offset)) := by
  unfold word
  rw [indexRange_of (Nat.le_add_right _ _) (by rw [object.complete]; exact h)]
  rfl

theorem wide_of {offset : ℕ} (h : offset + 8 ≤ object.kind.size) :
    (object.wide offset : Except (Fault ε) UInt64) =
      .ok (UInt64.ofNat (readLe 8 object.bytes offset)) := by
  unfold wide
  rw [indexRange_of (Nat.le_add_right _ _) (by rw [object.complete]; exact h)]
  rfl

/-- Every field lies within the object, so reading them does not panic. -/
theorem fields_total : ∃ fields, (object.fields : Except (Fault ε) Fields) = .ok fields := by
  unfold fields
  cases hkind : object.kind
  case Buffer =>
    have hsize : object.kind.size = 40 := by rw [hkind]; rfl
    simp (disch := omega) only [word_of, wide_of, ok_bind]
    exact ⟨_, rfl⟩
  case FdArray =>
    have hsize : object.kind.size = 32 := by rw [hkind]; rfl
    simp (disch := omega) only [wide_of, ok_bind]
    exact ⟨_, rfl⟩
  all_goals
    have hsize : object.kind.size = 24 := by rw [hkind]; rfl
    simp (disch := omega) only [word_of, wide_of, ok_bind]
    exact ⟨_, rfl⟩

/-- What `fields` returns. -/
def contents : Fields :=
  match h : (object.fields : Except (Fault Empty) Fields) with
  | .ok fields => fields
  | .error _ => absurd h (by
      obtain ⟨fields, hfields⟩ := fields_total (ε := Empty) object
      rw [hfields]
      exact nofun)

/-- The objects that refer to a node. -/
def is_reference : Bool :=
  match object.kind with
  | .Binder | .WeakBinder | .Handle | .WeakHandle => true
  | _ => false

/-- What a reference says of its node: whether it is weak, and its flags. -/
def weak : Bool := object.kind = .WeakBinder ∨ object.kind = .WeakHandle

def flags : UInt32 := UInt32.ofNat (readLe 4 object.bytes 4)

end

end Object

/-! ## The manifest of references -/

structure ManifestObject where
  offset : ℕ
  node : NodeToken
  strength : Strength
  flags : UInt32
deriving DecidableEq

/-- The errors of `validate_manifest`, of `remote_objects::Error`. -/
inductive ManifestError
  | Unsupported (kind : Kind) | InvalidManifest
deriving DecidableEq

def strength (weak : Bool) : Strength := if weak then .Weak else .Strong

/-- One turn of the loop of `validate_manifest`. -/
def validate_entry (object : Object) (entry : ManifestObject) :
    Except (Fault ManifestError) Unit := do
  let (weak, flags) ← match ← object.fields with
    | .Node weak flags _ _ => pure (weak, flags)
    | .Handle weak flags _ _ => pure (weak, flags)
    | _ => throw (.Fail (.Unsupported object.kind))
  ensure (object.offset = entry.offset ∧ strength weak = entry.strength ∧ flags = entry.flags)
    (.Fail .InvalidManifest)

/-- The loop of `validate_manifest`, over `zip`. -/
def validate_pairs : List Object → List ManifestObject → Except (Fault ManifestError) Unit
  | object :: objects, entry :: manifest => do
    validate_entry object entry
    validate_pairs objects manifest
  | _, _ => .ok ()

def validate_manifest (objects : List Object) (manifest : List ManifestObject) :
    Except (Fault ManifestError) Unit := do
  let reference_objects := objects.filter Object.is_reference
  ensure (reference_objects.length = manifest.length) (.Fail .InvalidManifest)
  validate_pairs reference_objects manifest

/-- An entry of the manifest describes a reference. -/
structure Describes (object : Object) (entry : ManifestObject) : Prop where
  offset : object.offset = entry.offset
  strength : strength object.weak = entry.strength
  flags : object.flags = entry.flags

variable {object : Object} {minimum : ℕ} {manifest : List ManifestObject} {objects : List Object}
  {encoded : List UInt8} {table : List (List UInt8)}

/-- Reading the fields of a reference gives what it says of its node. -/
theorem validate_entry_eq (h : object.is_reference = true) (entry : ManifestObject) :
    validate_entry object entry =
      ensure (object.offset = entry.offset ∧ strength object.weak = entry.strength ∧
        object.flags = entry.flags) (.Fail .InvalidManifest) := by
  unfold Object.is_reference at h
  unfold validate_entry Object.fields Object.weak
  cases hkind : object.kind <;> rw [hkind] at h
  case Fd | Buffer | FdArray => cases h
  all_goals
    have hsize : object.kind.size = 24 := by
      rw [hkind]
      rfl
    simp (disch := omega) only [Object.word_of, Object.wide_of, ok_bind]
    simp [Object.flags]

theorem validate_pairs_eq_ok (href : ∀ object ∈ objects, object.is_reference = true)
    (hlen : objects.length = manifest.length) :
    validate_pairs objects manifest = .ok () ↔ List.Forall₂ Describes objects manifest := by
  induction objects generalizing manifest with
  | nil =>
    rw [List.eq_nil_of_length_eq_zero hlen.symm]
    exact iff_of_true rfl .nil
  | cons object _ ih =>
    cases manifest with
    | nil => cases hlen
    | cons =>
      have ih := ih (fun o ho => href o (List.mem_cons_of_mem _ ho)) (Nat.succ.inj hlen)
      rw [validate_pairs, validate_entry_eq (href object List.mem_cons_self), bind_eq_ok,
        List.forall₂_cons, ← ih]
      constructor
      · rintro ⟨_, hentry, hrest⟩
        obtain ⟨hoffset, hstrength, hflags⟩ := ensure_eq_ok.mp hentry
        exact ⟨⟨hoffset, hstrength, hflags⟩, hrest⟩
      · rintro ⟨hentry, hrest⟩
        exact ⟨(), ensure_of _ ⟨hentry.offset, hentry.strength, hentry.flags⟩, hrest⟩

/-- **A manifest is accepted just when its entries describe the references, one by one and in
their order.** -/
theorem validate_manifest_eq_ok :
    validate_manifest objects manifest = .ok () ↔
      List.Forall₂ Describes (objects.filter Object.is_reference) manifest := by
  have href : ∀ object ∈ objects.filter Object.is_reference, object.is_reference = true :=
    fun _ ho => (List.mem_filter.mp ho).2
  unfold validate_manifest
  rw [bind_eq_ok]
  constructor
  · rintro ⟨_, hlen, hpairs⟩
    exact (validate_pairs_eq_ok href (ensure_eq_ok.mp hlen)).mp hpairs
  · intro h
    exact ⟨(), ensure_of _ h.length_eq, (validate_pairs_eq_ok href h.length_eq).mpr h⟩

theorem safe_validate_pairs (manifest : List ManifestObject)
    (href : ∀ object ∈ objects, object.is_reference = true) :
    Safe (validate_pairs objects manifest) := by
  induction objects generalizing manifest with
  | nil => exact Safe.ok ()
  | cons object _ ih =>
    cases manifest with
    | nil => exact Safe.ok ()
    | cons _ manifest =>
      rw [validate_pairs, validate_entry_eq (href object List.mem_cons_self)]
      apply Safe.bind (Safe.ensure _ _)
      intro _ _
      exact ih manifest fun o ho => href o (List.mem_cons_of_mem _ ho)

theorem safe_validate_manifest (objects : List Object) (manifest : List ManifestObject) :
    Safe (validate_manifest objects manifest) := by
  apply Safe.bind (Safe.ensure _ _)
  intro _ _
  exact safe_validate_pairs manifest fun _ ho => (List.mem_filter.mp ho).2

/-! ## Where objects stand -/

/-- An object stands in the data at its offset, complete and under the tag of its kind. -/
structure Stands (data : List UInt8) (object : Object) : Prop where
  aligned : object.offset % 4 = 0
  tag : fromLe (slice data object.offset (object.offset + 4)) = object.kind.tag
  inside : object.offset + object.kind.size ≤ data.length
  bytes : object.bytes = slice data object.offset (object.offset + object.kind.size)

/-- No two kinds have the same tag. -/
theorem find_tag {kind : Kind} {tag : ℕ} :
    (Kind.all.find? fun kind => kind.tag == tag) = some kind ↔ tag = kind.tag := by
  constructor
  · intro h
    have htag := List.find?_some h
    exact (eq_of_beq htag).symm
  · rintro rfl
    cases kind <;> rfl

variable {data : List UInt8}

/-- What one entry of the table must be. An entry with an overflow in it points outside of the
data, which is no longer than a machine word can say. -/
theorem object_at_eq_ok (hdata : data.length < 2 ^ 64) :
    object_at data minimum encoded = .ok object ↔
      fromLe encoded = object.offset ∧ minimum ≤ object.offset ∧ Stands data object := by
  unfold object_at
  simp only [bind_eq_ok, okOr_eq_ok, checked_add_eq_some, ensure_eq_ok, find_tag]
  constructor
  · rintro ⟨_, ⟨hminimum, haligned⟩, _, ⟨-, rfl⟩, _, -, kind, htag, stop, -, h⟩
    split at h
    next hstop =>
      cases h
      obtain ⟨rfl, hinside⟩ := hstop
      exact ⟨rfl, hminimum, haligned, htag, hinside, rfl⟩
    next => cases h
  · obtain ⟨kind, offset, bytes, complete⟩ := object
    rintro ⟨hoffset, hminimum, haligned, htag, hinside, hbytes⟩
    dsimp only at *
    have hsize : 4 ≤ kind.size := by cases kind <;> decide
    subst hoffset hbytes
    refine ⟨(), ⟨hminimum, haligned⟩, _, ⟨by omega, rfl⟩, (), by omega, kind, htag, _,
      ⟨by omega, rfl⟩, ?_⟩
    rw [dif_pos ⟨rfl, hinside⟩]
    rfl

theorem validate_entries_eq_ok (hdata : data.length < 2 ^ 64) :
    validate_entries data minimum table = .ok objects ↔
      table.map fromLe = objects.map Object.offset ∧ (∀ object ∈ objects, Stands data object) ∧
        (∀ object ∈ objects.head?, minimum ≤ object.offset) ∧
        objects.IsChain fun a b => a.offset + a.kind.size ≤ b.offset := by
  induction table generalizing minimum objects with
  | nil =>
    cases objects with
    | nil => simp [validate_entries]
    | cons => simp [validate_entries]
  | cons _ _ ih =>
    unfold validate_entries
    simp only [bind_eq_ok, pure_eq_ok, object_at_eq_ok hdata, ih]
    constructor
    · rintro ⟨object, ⟨hoffset, hminimum, hstands⟩, objects, ⟨hmap, hrest, hhead, hchain⟩, rfl⟩
      refine ⟨by rw [List.map_cons, List.map_cons, hoffset, hmap], ?_, ?_,
        List.isChain_cons.mpr ⟨hhead, hchain⟩⟩
      · exact List.forall_mem_cons.mpr ⟨hstands, hrest⟩
      · rintro _ ⟨⟩
        exact hminimum
    · rintro ⟨hmap, hstands, hminimum, hchain⟩
      cases objects with
      | nil => cases hmap
      | cons object objects =>
        injection hmap with hoffset hmap
        obtain ⟨hobject, hrest⟩ := List.forall_mem_cons.mp hstands
        obtain ⟨hhead, hchain⟩ := List.isChain_cons.mp hchain
        exact ⟨object, ⟨hoffset, hminimum object rfl, hobject⟩, objects,
          ⟨hmap, hrest, hhead, hchain⟩, rfl⟩

/-- **A table is accepted just when it lists objects of the data, none of which begins in the one
before it; and these are what is returned.** -/
theorem validate_eq_ok_iff {data : List UInt8} (hdata : data.length < 2 ^ 64)
    (offsets : List UInt8) (objects : List Object) :
    validate data offsets = .ok objects ↔
      offsets.length % 8 = 0 ∧ (entries offsets).map fromLe = objects.map Object.offset ∧
        (∀ object ∈ objects, Stands data object) ∧
        objects.IsChain fun a b => a.offset + a.kind.size ≤ b.offset := by
  unfold validate
  simp only [bind_eq_ok, ensure_eq_ok, validate_entries_eq_ok hdata]
  constructor
  · rintro ⟨_, hlength, hmap, hstands, -, hchain⟩
    exact ⟨hlength, hmap, hstands, hchain⟩
  · rintro ⟨hlength, hmap, hstands, hchain⟩
    exact ⟨(), hlength, hmap, hstands, fun _ _ => Nat.zero_le _, hchain⟩

/-- A handle, as the only object. -/
theorem validate_one_handle :
    validate (toLe 4 Kind.Handle.tag ++ List.replicate 20 0) (toLe 8 0) =
      .ok [⟨.Handle, 0, toLe 4 Kind.Handle.tag ++ List.replicate 20 0, rfl⟩] :=
  (validate_eq_ok_iff (by decide) _ _).mpr
    ⟨by decide, by decide, by
      intro object hobject
      rw [List.mem_singleton.mp hobject]
      exact ⟨rfl, by decide, by decide, rfl⟩, List.isChain_singleton _⟩

/-- An offset of the table is a machine word. -/
theorem object_at_offset (h : object_at data minimum encoded = .ok object) :
    object.offset < 2 ^ 64 := by
  unfold object_at at h
  simp only [bind_eq_ok, okOr_eq_ok, checked_add_eq_some] at h
  obtain ⟨_, _, _, ⟨hword, _⟩, _, _, _, _, _, _, h⟩ := h
  split at h
  · cases h
    exact Nat.lt_of_le_of_lt (Nat.le_add_right _ 4) hword
  · cases h

theorem validate_entries_offset (h : validate_entries data minimum table = .ok objects) :
    ∀ object ∈ objects, object.offset < 2 ^ 64 := by
  induction table generalizing minimum objects with
  | nil =>
    cases h
    exact fun _ ho => absurd ho List.not_mem_nil
  | cons _ _ ih =>
    obtain ⟨object, hobject, h⟩ := bind_eq_ok.mp h
    obtain ⟨objects', hrest, h⟩ := bind_eq_ok.mp h
    cases h
    intro o ho
    rcases List.mem_cons.mp ho with rfl | ho
    · exact object_at_offset hobject
    · exact ih hrest o ho

theorem validate_offset {offsets : List UInt8}
    (h : validate data offsets = .ok objects) : ∀ object ∈ objects, object.offset < 2 ^ 64 := by
  obtain ⟨_, _, h⟩ := bind_eq_ok.mp h
  exact validate_entries_offset h

end Objects

end DarwinArt.Binder
