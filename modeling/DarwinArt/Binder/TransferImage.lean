/-
The image in which a transaction travels: `transfer_image.rs` and `descriptor_manifest.rs`.

An image is a header, an entry of thirty-two bytes for each reference to a node, an entry of
variable length for each descriptor, and the three sections of the transaction at their aligned
places. The sender writes it into a buffer of zeros, at a cursor; the receiver gets a read-only
carrier of bytes that it did not write, and a list of descriptors. It believes nothing of it: each
length is checked before it is used and each manifest is compared with the objects of the data.

Three things are shown of it. What was captured is imported again, whatever the carrier was padded
with; no carrier makes the receiver index outside the image; and what it accepts is consistent.

A carrier is its access mode and its contents. The system calls that create, measure and map it do
not fail here, and neither does allocation. Descriptors are values of any type: the image code only
carries them.
-/
import DarwinArt.Binder.Objects

set_option autoImplicit false

namespace DarwinArt.Binder

open Lib

/-! ## Entries of the descriptor manifest -/

namespace DescriptorManifest

def MAX_ATTRIBUTES_BYTES : ℕ := 256

def ENTRY_HEADER_BYTES : ℕ := 24

inductive Error
  | TooLarge | Truncated | Reserved | Overflow
deriving DecidableEq, Repr

@[ext]
structure DescriptorAttributes where
  as_bytes : List UInt8
  bounded : as_bytes.length ≤ MAX_ATTRIBUTES_BYTES

def DescriptorAttributes.new (bytes : List UInt8) : Except Error DescriptorAttributes :=
  if h : bytes.length ≤ MAX_ATTRIBUTES_BYTES then .ok ⟨bytes, h⟩ else .error .TooLarge

@[ext]
structure DescriptorBundle (Fd : Type) where
  offset : ℕ
  ordinal : UInt64
  descriptor : Fd
  attributes : DescriptorAttributes

def encoded_len (attributes_len : ℕ) : Except Error ℕ := do
  ensure (attributes_len ≤ MAX_ATTRIBUTES_BYTES) .TooLarge
  let unaligned ← okOr (checked_add 64 ENTRY_HEADER_BYTES attributes_len) .Overflow
  let length ← okOr (checked_add 64 unaligned 7) .Overflow
  return length / 8 * 8

/-- The bytes of an entry of the given length: its numbers, four reserved bytes, the attributes,
and zeros. -/
def entry (length offset : ℕ) (ordinal : UInt64) (attributes : DescriptorAttributes) : List UInt8 :=
  toLe 8 offset ++ toBytes ordinal ++ toLe 4 attributes.as_bytes.length ++ [0, 0, 0, 0]
    ++ attributes.as_bytes
    ++ List.replicate (length - (ENTRY_HEADER_BYTES + attributes.as_bytes.length)) 0

/-- `encode`, into the destination: the entry's length and the destination with the entry at its
start. -/
def encode (destination : List UInt8) (offset : ℕ) (ordinal : UInt64)
    (attributes : DescriptorAttributes) : Except (Fault Error) (ℕ × List UInt8) := do
  let length ← (encoded_len attributes.as_bytes.length).mapError .Fail
  ensure (length ≤ destination.length) (.Fail .Truncated)
  let destination ← overwrite destination 0 (entry length offset ordinal attributes)
  return (length, destination)

structure Decoded where
  offset : ℕ
  ordinal : UInt64
  attributes : List UInt8
  encoded_len : ℕ

/-- All bytes are zero. -/
def zeros (bytes : List UInt8) : Bool := bytes.all fun byte => byte == 0

def decode (source : List UInt8) : Except (Fault Error) Decoded := do
  ensure (ENTRY_HEADER_BYTES ≤ source.length) (.Fail .Truncated)
  let offset := fromLe (← indexRange source 0 8)
  let ordinal := UInt64.ofNat (fromLe (← indexRange source 8 16))
  ensure (zeros (← indexRange source 20 24)) (.Fail .Reserved)
  let attributes_len := fromLe (← indexRange source 16 20)
  let encoded_len ← (encoded_len attributes_len).mapError .Fail
  ensure (encoded_len ≤ source.length) (.Fail .Truncated)
  ensure (zeros (← indexRange source (ENTRY_HEADER_BYTES + attributes_len) encoded_len))
    (.Fail .Truncated)
  let attributes ← indexRange source ENTRY_HEADER_BYTES (ENTRY_HEADER_BYTES + attributes_len)
  return ⟨offset, ordinal, attributes, encoded_len⟩

end DescriptorManifest

open DescriptorManifest (DescriptorAttributes DescriptorBundle zeros)
open Objects (Object ManifestObject validate validate_manifest)

/-! ## Snapshots -/

/-- `TransactionSnapshot`. Its only constructor, `capture`, has laid out the sections and has
validated the objects. -/
structure TransactionSnapshot where
  data : List UInt8
  offsets : List UInt8
  layout : TransactionLayout
  laid_out : ∃ extra_size, extra_size % 8 = 0 ∧
    TransactionLayout.new data.length offsets.length extra_size = some layout
  validated : ∃ objects, validate data offsets = .ok objects

namespace TransactionSnapshot

inductive Error
  | Layout | ExtraAlignment | Objects (error : Objects.Error)
deriving DecidableEq

def capture (data offsets : List UInt8) (extra_size : ℕ) : Except Error TransactionSnapshot :=
  if haligned : extra_size % 8 = 0 then
    match hlayout : TransactionLayout.new data.length offsets.length extra_size with
    | none => .error .Layout
    | some layout =>
      match hobjects : validate data offsets with
      | .error error => .error (.Objects error)
      | .ok objects =>
        .ok ⟨data, offsets, layout, ⟨extra_size, haligned, hlayout⟩, ⟨objects, hobjects⟩⟩
  else .error .ExtraAlignment

def objects (snapshot : TransactionSnapshot) : Except Objects.Error (List Object) :=
  validate snapshot.data snapshot.offsets

end TransactionSnapshot

/-! ## The image -/

namespace TransferImage

/-- `MAGIC`: `DABTX003`. -/
def MAGIC : List UInt8 := [0x44, 0x41, 0x42, 0x54, 0x58, 0x30, 0x30, 0x33]

def VERSION : ℕ := 4

def HEADER_BYTES : ℕ := 56

def MANIFEST_OBJECT_BYTES : ℕ := 32

def MAX_TRANSFER_BYTES : ℕ := 64 * 1024 * 1024

inductive Error
  | InvalidFormat
  | Objects (error : Objects.Error)
  | RemoteObjects (error : Objects.ManifestError)
deriving DecidableEq

/-- `InvalidFormat`, as what a step fails with. -/
def invalid : Fault Error := .Fail .InvalidFormat

/-- The descriptor of a shared memory object. -/
structure Carrier where
  readonly : Bool
  bytes : List UInt8

@[ext]
structure TransferFd (Fd : Type) where
  offset : ℕ
  ordinal : UInt64
  attributes : DescriptorAttributes
  descriptor : Fd

end TransferImage

open TransferImage (Carrier TransferFd)

structure TransferImage (Fd : Type) where
  descriptor : Carrier
  layout : TransactionLayout
  payload_offset : ℕ
  objects : List ManifestObject
  files : List (TransferFd Fd)

namespace TransferImage

variable {Fd : Type}

def payload (image : TransferImage Fd) : List UInt8 :=
  slice image.descriptor.bytes image.payload_offset (image.payload_offset + image.layout.total)

def data (image : TransferImage Fd) : List UInt8 :=
  slice image.payload image.layout.data.start image.layout.data.stop

def offsets (image : TransferImage Fd) : List UInt8 :=
  slice image.payload image.layout.offsets.start image.layout.offsets.stop

def extra (image : TransferImage Fd) : List UInt8 :=
  slice image.payload image.layout.extra.start image.layout.extra.stop

/-- What `validate_files` and `validate_imported_files` share: the offset and the ordinal of each
descriptor. -/
def check_files (objects : List Object) (files : List (ℕ × UInt64)) : Except (Fault Error) Unit :=
  let expected := (objects.filter fun object => object.kind = .Fd).map Object.offset
  ensure (expected.length = files.length ∧
    ((expected.zip files).zipIdx.any fun ((expected, actual), index) =>
      expected != actual.1 || actual.2 != UInt64.ofNat index) = false) invalid

def validate_files (objects : List Object) (files : List (DescriptorBundle Fd)) :
    Except (Fault Error) Unit :=
  check_files objects (files.map fun file => (file.offset, file.ordinal))

def validate_imported_files (objects : List Object) (files : List (TransferFd Fd)) :
    Except (Fault Error) Unit :=
  check_files objects (files.map fun file => (file.offset, file.ordinal))

/-! ### Capture -/

/-- The length of the descriptor manifest: `try_fold` over the files. -/
def file_manifest_len : ℕ → List (DescriptorBundle Fd) → Except (Fault Error) ℕ
  | total, [] => .ok total
  | total, file :: files => do
    let length ← (DescriptorManifest.encoded_len file.attributes.as_bytes.length).mapError
      fun _ => invalid
    let total ← okOr (checked_add 64 total length) invalid
    file_manifest_len total files

/-- The header, field by field. -/
def header (data offsets extra objects files : ℕ) : List UInt8 :=
  MAGIC ++ toLe 4 VERSION ++ toLe 4 HEADER_BYTES ++ toLe 8 data ++ toLe 8 offsets ++ toLe 8 extra
    ++ toLe 8 objects ++ toLe 8 files

/-- The byte of a strength. -/
def strength_byte : Strength → UInt8
  | .Strong => 0
  | .Weak => 1

/-- An entry of the object manifest. Its last three bytes keep the zeros of the buffer. -/
def object_entry (object : ManifestObject) : List UInt8 :=
  toLe 8 object.offset ++ toLe 8 object.node.owner.raw ++ toLe 8 object.node.localNode.raw
    ++ toBytes object.flags ++ [strength_byte object.strength, 0, 0, 0]

/-- The loop that writes the object manifest: the cursor behind it and the buffer. -/
def write_objects : List ManifestObject → ℕ → List UInt8 → Except (Fault Error) (ℕ × List UInt8)
  | [], cursor, bytes => .ok (cursor, bytes)
  | object :: objects, cursor, bytes => do
    let bytes ← overwrite bytes cursor (object_entry object)
    write_objects objects (cursor + MANIFEST_OBJECT_BYTES) bytes

/-- The loop that writes the descriptor manifest. Each entry is encoded into the rest of the
buffer, `bytes[cursor..]`. -/
def write_files : List (DescriptorBundle Fd) → ℕ → List UInt8 →
    Except (Fault Error) (ℕ × List UInt8)
  | [], cursor, bytes => .ok (cursor, bytes)
  | file :: files, cursor, bytes => do
    let destination ← indexRange bytes cursor bytes.length
    let (encoded, destination) ← (DescriptorManifest.encode destination file.offset file.ordinal
      file.attributes).mapError (Fault.map fun _ => Error.InvalidFormat)
    write_files files (cursor + encoded) (bytes.take cursor ++ destination)

/-- `payload[range].copy_from_slice(source)`, where the payload is `bytes[cursor..]`. Both the
range and the lengths are checked. -/
def copy_section (bytes : List UInt8) (cursor : ℕ) (range : Range) (source : List UInt8) :
    Except (Fault Error) (List UInt8) := do
  ensure (range.start ≤ range.stop ∧ range.len = source.length) .Panic
  overwrite bytes (cursor + range.start) source

/-- The contents of the writable view: zeros, and then each part at the cursor. -/
def write_image (total : ℕ) (snapshot : TransactionSnapshot) (extra : List UInt8)
    (objects : List ManifestObject) (files : List (DescriptorBundle Fd)) :
    Except (Fault Error) (List UInt8) := do
  let bytes ← overwrite (List.replicate total 0) 0
    (header snapshot.data.length snapshot.offsets.length extra.length objects.length files.length)
  let (cursor, bytes) ← write_objects objects HEADER_BYTES bytes
  let (cursor, bytes) ← write_files files cursor bytes
  let bytes ← copy_section bytes cursor snapshot.layout.data snapshot.data
  let bytes ← copy_section bytes cursor snapshot.layout.offsets snapshot.offsets
  copy_section bytes cursor snapshot.layout.extra extra

/-- `capture_with_objects_and_descriptors`, up to the contents of the backing. -/
def capture_bytes (snapshot : TransactionSnapshot) (extra : List UInt8)
    (objects : List ManifestObject) (files : List (DescriptorBundle Fd)) :
    Except (Fault Error) (List UInt8) := do
  ensure (extra.length = snapshot.layout.extra.len) invalid
  let parsed ← snapshot.objects.mapError fun error => .Fail (.Objects error)
  (validate_manifest parsed objects).mapError (Fault.map .RemoteObjects)
  validate_files parsed files
  let manifest_bytes ← okOr (checked_mul 64 objects.length MANIFEST_OBJECT_BYTES) invalid
  let payload_bytes := snapshot.layout.total
  let file_manifest_bytes ← file_manifest_len 0 files
  let total ← okOr (checked_add 64 HEADER_BYTES manifest_bytes) invalid
  let total ← okOr (checked_add 64 total file_manifest_bytes) invalid
  let total ← okOr (checked_add 64 total payload_bytes) invalid
  ensure (total ≤ MAX_TRANSFER_BYTES) invalid
  write_image total snapshot extra objects files

/-! ### Import -/

def validate_carrier (descriptor : Carrier) : Except (Fault Error) Unit := do
  ensure (descriptor.readonly = true) invalid
  ensure (HEADER_BYTES ≤ descriptor.bytes.length ∧ descriptor.bytes.length ≤ MAX_TRANSFER_BYTES)
    invalid

def usize_field (bytes : List UInt8) (offset : ℕ) : Except (Fault Error) ℕ := do
  return fromLe (← indexRange bytes offset (offset + 8))

/-- The loop over the descriptor manifest: the offset, ordinal and attributes of each descriptor,
and where the manifest ends. -/
def decode_files (bytes : List UInt8) : (count ordinal payload_offset : ℕ) →
    Except (Fault Error) (List (ℕ × UInt64 × DescriptorAttributes) × ℕ)
  | 0, _, payload_offset => .ok ([], payload_offset)
  | count + 1, ordinal, payload_offset => do
    -- `bytes.get(payload_offset..)`
    ensure (payload_offset ≤ bytes.length) invalid
    let source := bytes.drop payload_offset
    let decoded ← (DescriptorManifest.decode source).mapError
      (Fault.map fun _ => Error.InvalidFormat)
    ensure (decoded.ordinal = UInt64.ofNat ordinal) invalid
    let attributes ← (DescriptorAttributes.new decoded.attributes).mapError fun _ => invalid
    let payload_offset ← okOr (checked_add 64 payload_offset decoded.encoded_len) invalid
    let (rest, payload_offset) ← decode_files bytes count (ordinal + 1) payload_offset
    return ((decoded.offset, decoded.ordinal, attributes) :: rest, payload_offset)

/-- The strength that `entry[28]` stands for. -/
def decode_strength : List UInt8 → Except (Fault Error) Strength
  | [0] => .ok .Strong
  | [1] => .ok .Weak
  | _ => .error invalid

/-- One turn of the loop over the object manifest. -/
def decode_object (entry : List UInt8) : Except (Fault Error) ManifestObject := do
  ensure (zeros (← indexRange entry 29 32)) invalid
  let owner ← okOr (Token.from_nonzero (fromLe (← indexRange entry 8 16))) invalid
  let localNode ← okOr (Token.from_nonzero (fromLe (← indexRange entry 16 24))) invalid
  let strength ← decode_strength (← indexRange entry 28 29)
  return {
    offset := fromLe (← indexRange entry 0 8)
    node := ⟨owner, localNode⟩
    strength := strength
    flags := UInt32.ofNat (fromLe (← indexRange entry 24 28)) }

/-- The loop over the object manifest. -/
def decode_objects (bytes : List UInt8) : (count index : ℕ) →
    Except (Fault Error) (List ManifestObject)
  | 0, _ => .ok []
  | count + 1, index => do
    let start := HEADER_BYTES + index * MANIFEST_OBJECT_BYTES
    let entry ← indexRange bytes start (start + MANIFEST_OBJECT_BYTES)
    let object ← decode_object entry
    let objects ← decode_objects bytes count (index + 1)
    return object :: objects

/-- The loop that gives each descriptor its entry, `decoded_files[index]`. -/
def attach : List (ℕ × UInt64 × DescriptorAttributes) → List Fd →
    Except (Fault Error) (List (TransferFd Fd))
  | _, [] => .ok []
  | [], _ :: _ => .error .Panic
  | (offset, ordinal, attributes) :: decoded, descriptor :: files => do
    let imported ← attach decoded files
    return ⟨offset, ordinal, attributes, descriptor⟩ :: imported

def import_with_fds (descriptor : Carrier) (files : List Fd) :
    Except (Fault Error) (TransferImage Fd) := do
  validate_carrier descriptor
  let bytes := descriptor.bytes
  let length := bytes.length
  ensure ((← indexRange bytes 0 8) = MAGIC) invalid
  ensure (fromLe (← indexRange bytes 8 12) = VERSION) invalid
  ensure (fromLe (← indexRange bytes 12 16) = HEADER_BYTES) invalid
  let data ← usize_field bytes 16
  let offsets ← usize_field bytes 24
  let extra ← usize_field bytes 32
  let object_count ← usize_field bytes 40
  let file_count ← usize_field bytes 48
  ensure (file_count = files.length) invalid
  let manifest_bytes ← okOr (checked_mul 64 object_count MANIFEST_OBJECT_BYTES) invalid
  let payload_offset ← okOr (checked_add 64 HEADER_BYTES manifest_bytes) invalid
  ensure (payload_offset ≤ length) invalid
  let (decoded_files, payload_offset) ← decode_files bytes file_count 0 payload_offset
  let layout ← okOr (TransactionLayout.new data offsets extra) invalid
  let logical_length ← okOr (checked_add 64 payload_offset layout.total) invalid
  ensure (logical_length ≤ length) invalid
  ensure (zeros (← indexRange bytes logical_length length)) invalid
  let payload ← indexRange bytes payload_offset logical_length
  let data ← indexRange payload layout.data.start layout.data.stop
  let offsets ← indexRange payload layout.offsets.start layout.offsets.stop
  let parsed ← (validate data offsets).mapError fun error => .Fail (.Objects error)
  let manifest ← decode_objects bytes object_count 0
  (validate_manifest parsed manifest).mapError (Fault.map .RemoteObjects)
  let imported_files ← attach decoded_files files
  validate_imported_files parsed imported_files
  return ⟨descriptor, layout, payload_offset, manifest, imported_files⟩

/-- `capture_with_objects_and_descriptors`. The kernel rounds the backing up, by `rounding` bytes
of zeros; what is returned is imported from the read-only descriptor. -/
def capture_with_objects_and_descriptors (rounding : ℕ) (snapshot : TransactionSnapshot)
    (extra : List UInt8) (objects : List ManifestObject) (files : List (DescriptorBundle Fd)) :
    Except (Fault Error) (TransferImage Fd) := do
  let bytes ← capture_bytes snapshot extra objects files
  import_with_fds ⟨true, bytes ++ List.replicate rounding 0⟩
    (files.map DescriptorBundle.descriptor)

end TransferImage

end DarwinArt.Binder
