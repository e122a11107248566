/-
What holds of a transfer image: the round trip, safety, and what an accepted image guarantees.

`Captured` is the meeting point of the two sides. It says what stands in an image, part by part:
`capture_bytes_spec` shows that the writer's cursor leaves exactly that, and the reader's loops
are shown on it entry by entry, each with the part that was read before it. `Imports` is the list
of what `import_with_fds` has checked when it succeeds; that it succeeds in no other case gives
the round trip, and that it has checked them gives the rest.
-/
import DarwinArt.Binder.TransferImage

set_option autoImplicit false

namespace DarwinArt.Binder

open Lib

open TransactionLayout Safe

/-! ## Entries of the descriptor manifest -/

namespace DescriptorManifest

open TransactionLayout (aligned le_aligned)

theorem encoded_len_eq_ok {attributes_len length : ℕ} :
    encoded_len attributes_len = .ok length ↔
      attributes_len ≤ MAX_ATTRIBUTES_BYTES ∧
        length = aligned (ENTRY_HEADER_BYTES + attributes_len) := by
  unfold encoded_len
  simp only [bind_eq_ok, ensure_eq_ok, okOr_eq_ok, checked_add_eq_some]
  constructor
  · rintro ⟨_, hmax, _, ⟨_, rfl⟩, _, ⟨_, rfl⟩, h⟩
    exact ⟨hmax, (Except.ok.inj h).symm⟩
  · rintro ⟨hmax, rfl⟩
    have hmax' : attributes_len ≤ 256 := hmax
    exact ⟨(), hmax, _, ⟨by unfold ENTRY_HEADER_BYTES; omega, rfl⟩, _,
      ⟨by unfold ENTRY_HEADER_BYTES; omega, rfl⟩, rfl⟩

section

variable (offset : ℕ) (ordinal : UInt64) (attributes : DescriptorAttributes)

/-- The entry of a descriptor, at its own length. -/
def entry_of : List UInt8 :=
  entry (aligned (ENTRY_HEADER_BYTES + attributes.as_bytes.length)) offset ordinal attributes

theorem length_entry_of : (entry_of offset ordinal attributes).length =
      aligned (ENTRY_HEADER_BYTES + attributes.as_bytes.length) := by
  have hle := le_aligned (ENTRY_HEADER_BYTES + attributes.as_bytes.length)
  unfold entry_of entry ENTRY_HEADER_BYTES at *
  simp only [List.length_append, length_toLe, length_toBytes, List.length_replicate,
    List.length_cons, List.length_nil, LeBytes.width]
  omega

/-- Encoding writes the entry where the destination starts. -/
theorem encode_replicate
    {n : ℕ} (rest : ℕ) (hn : n = (entry_of offset ordinal attributes).length + rest) :
    encode (List.replicate n 0) offset ordinal attributes =
      .ok ((entry_of offset ordinal attributes).length,
        entry_of offset ordinal attributes ++ List.replicate rest 0) := by
  have hlen := length_entry_of offset ordinal attributes
  have hwrite : (overwrite (List.replicate n 0) 0 (entry_of offset ordinal attributes) :
      Except (Fault Error) (List UInt8)) =
        .ok (entry_of offset ordinal attributes ++ List.replicate rest 0) :=
    overwrite_replicate [] 0 0 rest rfl (by omega)
  unfold encode
  simp only [bind_eq_ok, mapError_eq_ok, encoded_len_eq_ok, ensure_eq_ok, pure_eq_ok]
  refine ⟨_, ⟨attributes.bounded, rfl⟩, (), ?_, _, hwrite, by rw [hlen]⟩
  rw [List.length_replicate]
  omega

end

/-- Decoding reads an entry back, whatever follows it. -/
theorem decode_entry_of {offset : ℕ} (ordinal : UInt64) (attributes : DescriptorAttributes)
    (rest : List UInt8) (hoffset : offset < 2 ^ 64) :
    decode (entry_of offset ordinal attributes ++ rest) =
      .ok ⟨offset, ordinal, attributes.as_bytes,
        (entry_of offset ordinal attributes).length⟩ := by
  have hlen := length_entry_of offset ordinal attributes
  have hbound : attributes.as_bytes.length ≤ 256 := attributes.bounded
  have hle := le_aligned (ENTRY_HEADER_BYTES + attributes.as_bytes.length)
  have hsource : (entry_of offset ordinal attributes ++ rest).length =
      aligned (ENTRY_HEADER_BYTES + attributes.as_bytes.length) + rest.length := by
    rw [List.length_append, hlen]
  -- the parts of the entry, in their order
  generalize hpad : aligned (ENTRY_HEADER_BYTES + attributes.as_bytes.length) -
    (ENTRY_HEADER_BYTES + attributes.as_bytes.length) = pad
  have hparts : entry_of offset ordinal attributes ++ rest =
      toLe 8 offset ++ (toBytes ordinal ++ (toLe 4 attributes.as_bytes.length ++ ([0, 0, 0, 0] ++
        (attributes.as_bytes ++ (List.replicate pad 0 ++ rest))))) := by
    simp only [entry_of, entry, hpad, List.append_assoc]
  generalize entry_of offset ordinal attributes ++ rest = source at *
  have h8 : (toLe 8 offset).length = 8 := length_toLe _ _
  have h8' : (toBytes ordinal).length = 8 := length_toBytes _
  have h4 : (toLe 4 attributes.as_bytes.length).length = 4 := length_toLe _ _
  have hskip (a b : ℕ) : slice source (24 + a) (24 + b) =
      slice (attributes.as_bytes ++ (List.replicate pad 0 ++ rest)) a b := by
    rw [hparts, show 24 + a = 8 + (8 + (4 + (4 + a))) by omega,
      show 24 + b = 8 + (8 + (4 + (4 + b))) by omega, slice_skip _ h8, slice_skip _ h8',
      slice_skip _ h4, slice_skip _ (show ([0, 0, 0, 0] : List UInt8).length = 4 from rfl)]
  have hsource_offset : slice source 0 8 = toLe 8 offset := by
    rw [hparts, slice_first _ h8]
  have hsource_ordinal : slice source 8 16 = toBytes ordinal := by
    rw [hparts]
    exact (slice_skip _ h8 0 8).trans (slice_first _ h8')
  have hsource_len : slice source 16 20 = toLe 4 attributes.as_bytes.length := by
    rw [hparts]
    exact (slice_skip _ h8 8 12).trans ((slice_skip _ h8' 0 4).trans (slice_first _ h4))
  have hsource_reserved : slice source 20 24 = [0, 0, 0, 0] := by
    rw [hparts]
    exact (slice_skip _ h8 12 16).trans ((slice_skip _ h8' 4 8).trans
      ((slice_skip _ h4 0 4).trans (slice_first _ rfl)))
  have hsource_attributes :
      slice source 24 (24 + attributes.as_bytes.length) = attributes.as_bytes :=
    (hskip 0 _).trans (slice_first _ rfl)
  have hsource_padding : slice source (24 + attributes.as_bytes.length)
      (aligned (24 + attributes.as_bytes.length)) = List.replicate pad 0 := by
    have hend : aligned (24 + attributes.as_bytes.length)
        = 24 + (attributes.as_bytes.length + pad) := by
      unfold ENTRY_HEADER_BYTES at hpad hle
      omega
    rw [hend, hskip]
    exact (slice_skip _ rfl 0 pad).trans (slice_first _ (List.length_replicate ..))
  have hlength : fromLe (toLe 4 attributes.as_bytes.length) = attributes.as_bytes.length :=
    fromLe_toLe (by omega)
  unfold decode ENTRY_HEADER_BYTES at *
  simp only [bind_eq_ok, mapError_eq_ok, encoded_len_eq_ok, ensure_eq_ok, pure_eq_ok,
    indexRange_eq_ok, ENTRY_HEADER_BYTES]
  refine ⟨(), by omega, _, ⟨by omega, hsource_offset.symm⟩, _, ⟨by omega, hsource_ordinal.symm⟩,
    _, ⟨by omega, hsource_reserved.symm⟩, (), rfl, _, ⟨by omega, hsource_len.symm⟩, ?_⟩
  rw [hlength]
  refine ⟨_, ⟨attributes.bounded, rfl⟩, (), by omega, _, ⟨by omega, hsource_padding.symm⟩, (), ?_,
    _, ⟨by omega, hsource_attributes.symm⟩, ?_⟩
  · exact List.all_eq_true.mpr fun _ hbyte => beq_iff_eq.mpr (List.eq_of_mem_replicate hbyte)
  · rw [fromLe_toLe hoffset, hlen, show UInt64.ofNat (fromLe (toBytes ordinal)) = ordinal from
      readAt_toBytes_end ordinal]

end DescriptorManifest

namespace TransferImage

open DescriptorManifest (DescriptorAttributes DescriptorBundle zeros entry_of length_entry_of
  encode_replicate decode_entry_of)
open Objects (Object ManifestObject validate validate_manifest Describes)
open TransactionLayout (aligned le_aligned)

variable {Fd : Type} {image : TransferImage Fd}

/-! ## Entries of the object manifest -/

theorem length_object_entry (object : ManifestObject) :
    (object_entry object).length = MANIFEST_OBJECT_BYTES := by
  simp only [object_entry, List.length_append, length_toLe, length_toBytes, List.length_cons,
    List.length_nil]
  rfl

theorem decode_object_entry {object : ManifestObject} (hoffset : object.offset < 2 ^ 64) :
    decode_object (object_entry object) = .ok object := by
  obtain ⟨offset, ⟨owner, localNode⟩, strength, flags⟩ := object
  have h8 (x : ℕ) : (toLe 8 x).length = 8 := length_toLe _ _
  have h4 : (toBytes flags).length = 4 := length_toBytes _
  have hlen : (object_entry ⟨offset, ⟨owner, localNode⟩, strength, flags⟩).length = 32 :=
    length_object_entry _
  have hparts : object_entry ⟨offset, ⟨owner, localNode⟩, strength, flags⟩ =
      toLe 8 offset ++ (toLe 8 owner.raw ++ (toLe 8 localNode.raw ++ (toBytes flags
        ++ [strength_byte strength, 0, 0, 0]))) := by
    simp only [object_entry, List.append_assoc]
  generalize object_entry ⟨offset, ⟨owner, localNode⟩, strength, flags⟩ = entry at *
  have hskip (a b : ℕ) : slice entry (28 + a) (28 + b) =
      slice [strength_byte strength, 0, 0, 0] a b := by
    rw [hparts, show 28 + a = 8 + (8 + (8 + (4 + a))) by omega,
      show 28 + b = 8 + (8 + (8 + (4 + b))) by omega, slice_skip _ (h8 _), slice_skip _ (h8 _),
      slice_skip _ (h8 _), slice_skip _ h4]
  have hentry_offset : slice entry 0 8 = toLe 8 offset := by
    rw [hparts, slice_first _ (h8 _)]
  have hentry_owner : slice entry 8 16 = toLe 8 owner.raw := by
    rw [hparts]
    exact (slice_skip _ (h8 _) 0 8).trans (slice_first _ (h8 _))
  have hentry_local : slice entry 16 24 = toLe 8 localNode.raw := by
    rw [hparts]
    exact (slice_skip _ (h8 _) 8 16).trans ((slice_skip _ (h8 _) 0 8).trans
      (slice_first _ (h8 _)))
  have hentry_flags : slice entry 24 28 = toBytes flags := by
    rw [hparts]
    exact (slice_skip _ (h8 _) 16 20).trans ((slice_skip _ (h8 _) 8 12).trans
      ((slice_skip _ (h8 _) 0 4).trans (slice_first _ h4)))
  have hflags : UInt32.ofNat (fromLe (toBytes flags)) = flags := readAt_toBytes_end flags
  unfold decode_object
  simp only [bind_eq_ok, ensure_eq_ok, okOr_eq_ok, pure_eq_ok, indexRange_eq_ok]
  refine ⟨_, ⟨by omega, (hskip 1 4).symm⟩, (), rfl, _, ⟨by omega, hentry_owner.symm⟩, owner, ?_, _,
    ⟨by omega, hentry_local.symm⟩, localNode, ?_, _, ⟨by omega, (hskip 0 1).symm⟩, strength, ?_, _,
    ⟨by omega, hentry_offset.symm⟩, _, ⟨by omega, hentry_flags.symm⟩, ?_⟩
  · rw [fromLe_toLe owner.fits, Token.from_nonzero_raw]
  · rw [fromLe_toLe localNode.fits, Token.from_nonzero_raw]
  · cases strength <;> rfl
  · rw [fromLe_toLe hoffset, hflags]

/-- The loop over the manifest reads the entries behind those that it has read. -/
theorem decode_objects_flatMap {objects : List ManifestObject}
    (hoffsets : ∀ object ∈ objects, object.offset < 2 ^ 64) (p rest : List UInt8) (index : ℕ)
    (hp : p.length = HEADER_BYTES + index * MANIFEST_OBJECT_BYTES) :
    decode_objects (p ++ (objects.flatMap object_entry ++ rest)) objects.length index =
      .ok objects := by
  induction objects generalizing p index with
  | nil => rfl
  | cons object objects ih =>
    have hentry := length_object_entry object
    have hdecode := decode_object_entry (hoffsets object List.mem_cons_self)
    have hrest := ih (fun o ho => hoffsets o (List.mem_cons_of_mem _ ho))
      (p ++ object_entry object) (index + 1)
      (by rw [List.length_append, hp, hentry]; unfold MANIFEST_OBJECT_BYTES; omega)
    rw [List.append_assoc] at hrest
    rw [List.flatMap_cons, List.append_assoc, List.length_cons, decode_objects]
    simp only [bind_eq_ok, pure_eq_ok, indexRange_eq_ok]
    refine ⟨_, ⟨⟨Nat.le_add_right _ _, ?_⟩, ?_⟩, object, hdecode, objects, hrest, rfl⟩
    · simp only [List.length_append]
      omega
    · rw [← hp]
      exact ((slice_append_right p _ 0 _).trans (slice_first _ hentry)).symm

/-! ## Descriptors -/

/-- The entry of a captured descriptor. -/
def file_entry (file : DescriptorBundle Fd) : List UInt8 :=
  entry_of file.offset file.ordinal file.attributes

/-- What the receiver knows of a captured descriptor. -/
def imported (file : DescriptorBundle Fd) : TransferFd Fd :=
  ⟨file.offset, file.ordinal, file.attributes, file.descriptor⟩

/-- The offsets of the descriptors in the data. -/
def direct (objects : List Object) : List ℕ :=
  (objects.filter fun object => object.kind = .Fd).map Object.offset

/-- The offset and the ordinal of the descriptor at a place of the list. -/
def place (expected : ℕ × ℕ) : ℕ × UInt64 := (expected.1, UInt64.ofNat expected.2)

/-- **Descriptors are accepted just when they are those of the data, one by one and numbered in
their order.** -/
theorem check_files_eq_ok {objects : List Object} {files : List (ℕ × UInt64)} :
    check_files objects files = .ok () ↔ files = (direct objects).zipIdx.map place := by
  unfold check_files
  rw [ensure_eq_ok]
  constructor
  · rintro ⟨hlen, hany⟩
    change (direct objects).length = files.length at hlen
    apply List.ext_getElem
    · rw [List.length_map, List.length_zipIdx, hlen]
    · intro i hfile hi
      have hi : i < (direct objects).length := by omega
      have hmem : (((direct objects)[i], files[i]), i) ∈ ((direct objects).zip files).zipIdx := by
        rw [List.mem_zipIdx_iff_getElem?, List.getElem?_zip_eq_some]
        exact ⟨List.getElem?_eq_getElem hi, List.getElem?_eq_getElem hfile⟩
      have hplace := List.any_eq_false.mp hany _ hmem
      simp only [bne_iff_ne, Bool.or_eq_true, not_or, ne_eq, not_not] at hplace
      rw [List.getElem_map, List.getElem_zipIdx, place]
      exact Prod.ext hplace.1.symm (by rw [hplace.2, Nat.zero_add])
  · intro h
    subst h
    refine ⟨?_, List.any_eq_false.mpr ?_⟩
    · change (direct objects).length = _
      rw [List.length_map, List.length_zipIdx]
    · rintro ⟨⟨expected, _⟩, i⟩ hmem
      rw [List.mem_zipIdx_iff_getElem?, List.getElem?_zip_eq_some] at hmem
      obtain ⟨hexpected, hactual⟩ := hmem
      change (direct objects)[i]? = some expected at hexpected
      rw [List.getElem?_map, List.getElem?_zipIdx, hexpected] at hactual
      simp only [Option.map_some, Option.some.injEq] at hactual
      rw [← hactual]
      simp [place]

/-- The loop over the descriptor manifest reads the entries behind those that it has read. -/
theorem decode_files_flatMap {files : List (DescriptorBundle Fd)} {expected : List ℕ} {ordinal : ℕ}
    (hfiles : files.map (fun file => (file.offset, file.ordinal)) =
      (expected.zipIdx ordinal).map place)
    (hoffsets : ∀ file ∈ files, file.offset < 2 ^ 64) (p rest : List UInt8)
    (hword : p.length + (files.flatMap file_entry).length < 2 ^ 64) :
    decode_files (p ++ (files.flatMap file_entry ++ rest)) files.length ordinal p.length =
      .ok (files.map fun file => (file.offset, file.ordinal, file.attributes),
        p.length + (files.flatMap file_entry).length) := by
  induction files generalizing p expected ordinal with
  | nil => rfl
  | cons file files ih =>
    cases expected with
    | nil => cases hfiles
    | cons =>
      rw [List.zipIdx_cons, List.map_cons, List.map_cons, List.cons.injEq] at hfiles
      obtain ⟨hfile, hfiles⟩ := hfiles
      have hordinal : file.ordinal = UInt64.ofNat ordinal := congrArg Prod.snd hfile
      have hdecode := decode_entry_of file.ordinal file.attributes
        (files.flatMap file_entry ++ rest) (hoffsets file List.mem_cons_self)
      rw [List.flatMap_cons, List.length_append] at hword
      have hrest := ih hfiles (fun f hf => hoffsets f (List.mem_cons_of_mem _ hf))
        (p ++ file_entry file) (by rw [List.length_append]; omega)
      rw [List.append_assoc, List.length_append] at hrest
      rw [List.flatMap_cons, List.append_assoc, List.length_cons, decode_files]
      simp only [bind_eq_ok, ensure_eq_ok, okOr_eq_ok, mapError_eq_ok, pure_eq_ok,
        checked_add_eq_some, List.drop_left]
      refine ⟨(), ?_, _, hdecode, (), hordinal, file.attributes, dif_pos file.attributes.bounded, _,
        ⟨?_, rfl⟩, _, hrest, ?_⟩
      · rw [List.length_append]
        exact Nat.le_add_right _ _
      · change p.length + (file_entry file).length < 2 ^ 64
        omega
      · rw [List.map_cons, List.length_append, Nat.add_assoc]

/-- Each descriptor is given its own entry. -/
theorem attach_map (files : List (DescriptorBundle Fd)) :
    attach (files.map fun file => (file.offset, file.ordinal, file.attributes))
      (files.map DescriptorBundle.descriptor) = .ok (files.map imported) := by
  induction files with
  | nil => rfl
  | cons _ _ ih =>
    rw [List.map_cons, List.map_cons, attach, ih]
    rfl

/-! ## What is captured -/

variable {n : ℕ} {descriptor : Carrier} {decoded : List (ℕ × UInt64 × DescriptorAttributes)}

theorem write_objects_replicate (objects : List ManifestObject) (p : List UInt8) (rest : ℕ)
    (hn : n = (objects.flatMap object_entry).length + rest) :
    write_objects objects p.length (p ++ List.replicate n 0) =
      .ok (p.length + (objects.flatMap object_entry).length,
        p ++ objects.flatMap object_entry ++ List.replicate rest 0) := by
  induction objects generalizing p n with
  | nil =>
    rw [hn]
    simp [write_objects]
  | cons object objects ih =>
    have hentry := length_object_entry object
    rw [List.flatMap_cons, List.length_append] at hn
    have hwrite : (overwrite (p ++ List.replicate n 0) p.length (object_entry object) :
        Except (Fault Error) (List UInt8)) =
          .ok (p ++ object_entry object
            ++ List.replicate ((objects.flatMap object_entry).length + rest) 0) := by
      have hn' : n = 0 + (object_entry object).length
          + ((objects.flatMap object_entry).length + rest) := by
        omega
      rw [overwrite_replicate p 0 0 _ (Nat.add_zero p.length).symm hn', List.replicate_zero,
        List.append_nil]
    have hrest := ih (p ++ object_entry object) rfl
    rw [List.length_append, hentry] at hrest
    rw [write_objects, hwrite, ok_bind, hrest, List.flatMap_cons, List.length_append, hentry]
    simp only [List.append_assoc, Nat.add_assoc]

theorem write_files_replicate (files : List (DescriptorBundle Fd)) (p : List UInt8) (rest : ℕ)
    (hn : n = (files.flatMap file_entry).length + rest) :
    write_files files p.length (p ++ List.replicate n 0) =
      .ok (p.length + (files.flatMap file_entry).length,
        p ++ files.flatMap file_entry ++ List.replicate rest 0) := by
  induction files generalizing p n with
  | nil =>
    rw [hn]
    simp [write_files]
  | cons file files ih =>
    rw [List.flatMap_cons, List.length_append] at hn
    have hencode := encode_replicate file.offset file.ordinal file.attributes
      ((files.flatMap file_entry).length + rest)
      (show n = (file_entry file).length + _ by omega)
    have hrest := ih (p ++ file_entry file) rfl
    rw [List.length_append] at hrest
    rw [write_files]
    simp only [bind_eq_ok, indexRange_eq_ok, mapError_eq_ok]
    refine ⟨List.replicate n 0, ⟨⟨?_, le_rfl⟩, ?_⟩, _, hencode, ?_⟩
    · rw [List.length_append]
      exact Nat.le_add_right _ _
    · rw [List.length_append, List.length_replicate]
      exact ((slice_append_right p _ 0 n).trans (slice_all (List.length_replicate ..))).symm
    · rw [List.take_left, ← List.append_assoc]
      exact hrest.trans (by
        simp only [List.flatMap_cons, List.length_append, List.append_assoc, Nat.add_assoc])

theorem file_manifest_len_eq_ok {files : List (DescriptorBundle Fd)} {total length : ℕ}
    (h : file_manifest_len total files = .ok length) :
    length = total + (files.flatMap file_entry).length := by
  induction files generalizing total with
  | nil => exact (Except.ok.inj h).symm
  | cons _ _ ih =>
    rw [file_manifest_len] at h
    simp only [bind_eq_ok, mapError_eq_ok, okOr_eq_ok, checked_add_eq_some,
      DescriptorManifest.encoded_len_eq_ok] at h
    obtain ⟨_, ⟨_, rfl⟩, _, ⟨_, rfl⟩, h⟩ := h
    rw [ih h, List.flatMap_cons, List.length_append, file_entry, length_entry_of]
    omega

theorem copy_section_replicate (p : List UInt8) {cursor : ℕ} {range : Range}
    {source : List UInt8} (gap rest : ℕ) (hrange : range.stop = range.start + source.length)
    (hcursor : cursor + range.start = p.length + gap) (hn : n = gap + source.length + rest) :
    copy_section (p ++ List.replicate n 0) cursor range source =
      .ok (p ++ List.replicate gap 0 ++ source ++ List.replicate rest 0) := by
  unfold copy_section Range.len
  rw [ensure_of _ ⟨by omega, by omega⟩, ok_bind, overwrite_replicate p 0 gap rest hcursor hn]

/-- The sections of a transaction at their places. -/
def body (snapshot : TransactionSnapshot) (extra : List UInt8) : List UInt8 :=
  let data := snapshot.data.length
  let offsets := snapshot.offsets.length
  snapshot.data ++ List.replicate (aligned data - data) 0
    ++ snapshot.offsets ++ List.replicate (aligned offsets - offsets) 0
    ++ extra ++ List.replicate
      (snapshot.layout.total - (aligned data + aligned offsets + extra.length)) 0

/-- The image of a captured transaction, part by part. -/
def image_bytes (snapshot : TransactionSnapshot) (extra : List UInt8)
    (objects : List ManifestObject) (files : List (DescriptorBundle Fd)) : List UInt8 :=
  header snapshot.data.length snapshot.offsets.length extra.length objects.length files.length
    ++ (objects.flatMap object_entry ++ (files.flatMap file_entry ++ body snapshot extra))

/-- What is known of a transaction whose image was written. -/
structure Captured (snapshot : TransactionSnapshot) (extra : List UInt8)
    (objects : List ManifestObject) (files : List (DescriptorBundle Fd)) (bytes : List UInt8) :
    Prop where
  layout : TransactionLayout.new snapshot.data.length snapshot.offsets.length extra.length =
    some snapshot.layout
  accepted : ∃ parsed, validate snapshot.data snapshot.offsets = .ok parsed ∧
    validate_manifest parsed objects = .ok () ∧ validate_files parsed files = .ok ()
  bytes_eq : bytes = image_bytes snapshot extra objects files
  fits : bytes.length ≤ MAX_TRANSFER_BYTES

theorem length_header (data offsets extra objects files : ℕ) :
    (header data offsets extra objects files).length = HEADER_BYTES := by
  simp only [header, List.length_append, length_toLe]
  rfl

theorem length_flatMap_object_entry (objects : List ManifestObject) :
    (objects.flatMap object_entry).length = objects.length * MANIFEST_OBJECT_BYTES := by
  induction objects with
  | nil => rw [List.flatMap_nil, List.length_nil, List.length_nil, Nat.zero_mul]
  | cons _ _ ih =>
    rw [List.flatMap_cons, List.length_append, ih, length_object_entry, List.length_cons,
      Nat.succ_mul, Nat.add_comm]

/-- The extra section that a snapshot was laid out for is the one it is captured with. -/
theorem layout_of_extra {snapshot : TransactionSnapshot} {extra : List UInt8}
    (h : extra.length = snapshot.layout.extra.len) :
    TransactionLayout.new snapshot.data.length snapshot.offsets.length extra.length =
      some snapshot.layout := by
  obtain ⟨extra_size, _, hlayout⟩ := snapshot.laid_out
  have hsections := (new_eq_some.mp hlayout).2
  have hextra : extra.length = extra_size := by
    rw [h, hsections]
    exact Nat.add_sub_cancel_left ..
  rw [hextra, hlayout]

/-- What the receiver makes of a captured image. -/
def received (snapshot : TransactionSnapshot) (objects : List ManifestObject)
    (files : List (DescriptorBundle Fd)) (bytes : List UInt8) : TransferImage Fd where
  descriptor := ⟨true, bytes⟩
  layout := snapshot.layout
  payload_offset := HEADER_BYTES + (objects.flatMap object_entry).length
    + (files.flatMap file_entry).length
  objects := objects
  files := files.map imported

theorem length_padded (bytes : List UInt8) :
    (bytes ++ List.replicate (aligned bytes.length - bytes.length) 0).length =
      aligned bytes.length := by
  have hle := le_aligned bytes.length
  rw [List.length_append, List.length_replicate]
  omega

section LaidOut

variable {snapshot : TransactionSnapshot} {extra : List UInt8}
  (hlayout : TransactionLayout.new snapshot.data.length snapshot.offsets.length extra.length =
    some snapshot.layout)

include hlayout

theorem sections_le_total : aligned snapshot.data.length + aligned snapshot.offsets.length
    + aligned extra.length ≤ snapshot.layout.total := by
  rw [(new_eq_some.mp hlayout).2]
  exact Nat.le_max_left ..

/-- The three sections are written behind the manifests, each behind the one before. -/
theorem copy_sections (p : List UInt8) :
    (do
      let bytes ← copy_section (p ++ List.replicate snapshot.layout.total 0) p.length
        snapshot.layout.data snapshot.data
      let bytes ← copy_section bytes p.length snapshot.layout.offsets snapshot.offsets
      copy_section bytes p.length snapshot.layout.extra extra) =
      .ok (p ++ body snapshot extra) := by
  obtain ⟨_, hsections⟩ := new_eq_some.mp hlayout
  have hdata := le_aligned snapshot.data.length
  have hoffsets := le_aligned snapshot.offsets.length
  have hextra := le_aligned extra.length
  have htotal := sections_le_total hlayout
  rw [copy_section_replicate p 0 (snapshot.layout.total - snapshot.data.length)
    (by rw [hsections]; exact (Nat.zero_add _).symm) (by rw [hsections]; rfl) (by omega), ok_bind]
  rw [copy_section_replicate _ (aligned snapshot.data.length - snapshot.data.length)
    (snapshot.layout.total - aligned snapshot.data.length - snapshot.offsets.length)
    (by rw [hsections]; rfl) ?_ (by omega), ok_bind]
  rw [copy_section_replicate _ (aligned snapshot.offsets.length - snapshot.offsets.length)
    (snapshot.layout.total - (aligned snapshot.data.length + aligned snapshot.offsets.length
      + extra.length))
    (by rw [hsections]; rfl) ?_ (by omega)]
  · simp only [body, List.replicate_zero, List.append_nil, List.append_assoc]
  · rw [hsections]
    simp only [sections, List.length_append, List.length_replicate]
    omega
  · rw [hsections]
    simp only [sections, List.length_append, List.length_replicate]
    omega

theorem write_image_eq (objects : List ManifestObject) (files : List (DescriptorBundle Fd)) {total : ℕ}
    (htotal : total = HEADER_BYTES + objects.length * MANIFEST_OBJECT_BYTES
      + (files.flatMap file_entry).length + snapshot.layout.total) :
    write_image total snapshot extra objects files =
      .ok (image_bytes snapshot extra objects files) := by
  unfold write_image image_bytes
  have hhead := length_header snapshot.data.length snapshot.offsets.length extra.length
    objects.length files.length
  generalize header snapshot.data.length snapshot.offsets.length extra.length objects.length
    files.length = head at *
  -- after each step the cursor stands behind what was written, and zeros follow
  have hheader : (overwrite (List.replicate total 0) 0 head : Except (Fault Error) (List UInt8)) =
      .ok (head ++ List.replicate ((objects.flatMap object_entry).length
        + ((files.flatMap file_entry).length + snapshot.layout.total)) 0) :=
    overwrite_replicate [] 0 0 _ rfl (by rw [length_flatMap_object_entry]; omega)
  have hobjects := write_objects_replicate objects head
    ((files.flatMap file_entry).length + snapshot.layout.total) rfl
  have hfiles := write_files_replicate files (head ++ objects.flatMap object_entry)
    snapshot.layout.total rfl
  have hsections := copy_sections hlayout
    (head ++ objects.flatMap object_entry ++ files.flatMap file_entry)
  rw [List.length_append] at hfiles
  rw [List.length_append, List.length_append] at hsections
  rw [hheader, ok_bind, ← hhead, hobjects, ok_bind]
  dsimp only
  rw [hfiles, ok_bind]
  dsimp only
  rw [hsections]
  simp only [List.append_assoc]

theorem length_body : (body snapshot extra).length = snapshot.layout.total := by
  have hdata := le_aligned snapshot.data.length
  have hoffsets := le_aligned snapshot.offsets.length
  have hextra := le_aligned extra.length
  have htotal := sections_le_total hlayout
  simp only [body, List.length_append, List.length_replicate]
  omega

/-- The sections stand at their places of the layout. -/
theorem slice_body :
    slice (body snapshot extra) snapshot.layout.data.start snapshot.layout.data.stop =
      snapshot.data ∧
    slice (body snapshot extra) snapshot.layout.offsets.start snapshot.layout.offsets.stop =
      snapshot.offsets ∧
    slice (body snapshot extra) snapshot.layout.extra.start snapshot.layout.extra.stop = extra := by
  have hsections := (new_eq_some.mp hlayout).2
  have hbefore := length_padded snapshot.data
  have hbefore' := length_padded snapshot.offsets
  rw [hsections]
  simp only [sections]
  refine ⟨?_, ?_, ?_⟩
  · simp only [body, List.append_assoc]
    exact slice_first _ rfl
  · rw [body, List.append_assoc, List.append_assoc, List.append_assoc, List.append_assoc,
      ← List.append_assoc snapshot.data]
    exact (slice_skip _ hbefore 0 _).trans (slice_first _ rfl)
  · rw [body, List.append_assoc, List.append_assoc, List.append_assoc, Nat.add_assoc,
      ← List.append_assoc snapshot.offsets]
    exact (slice_skip _ hbefore (aligned snapshot.offsets.length + 0) _).trans
      ((slice_skip _ hbefore' 0 _).trans (slice_first _ rfl))

/-- The payload of a received image is the body that was written. -/
theorem payload_received (objects : List ManifestObject) (files : List (DescriptorBundle Fd))
    (padding : List UInt8) :
    (received snapshot objects files
      (image_bytes snapshot extra objects files ++ padding)).payload = body snapshot extra := by
  have hbefore : (header snapshot.data.length snapshot.offsets.length extra.length objects.length
      files.length ++ objects.flatMap object_entry ++ files.flatMap file_entry).length =
        HEADER_BYTES + (objects.flatMap object_entry).length
          + (files.flatMap file_entry).length := by
    rw [List.length_append, List.length_append, length_header]
  have hbytes : image_bytes snapshot extra objects files ++ padding =
      (header snapshot.data.length snapshot.offsets.length extra.length objects.length
        files.length ++ objects.flatMap object_entry ++ files.flatMap file_entry)
        ++ (body snapshot extra ++ padding) := by
    simp only [image_bytes, List.append_assoc]
  unfold payload received
  rw [hbytes]
  exact (slice_skip _ hbefore 0 _).trans (slice_first _ (length_body hlayout))

end LaidOut

theorem capture_bytes_spec {snapshot : TransactionSnapshot} {extra : List UInt8}
    {objects : List ManifestObject} {files : List (DescriptorBundle Fd)} {bytes : List UInt8}
    (h : capture_bytes snapshot extra objects files = .ok bytes) :
    Captured snapshot extra objects files bytes := by
  unfold capture_bytes at h
  simp only [bind_eq_ok, ensure_eq_ok, okOr_eq_ok, mapError_eq_ok, checked_mul_eq_some,
    checked_add_eq_some] at h
  obtain ⟨_, hextra, parsed, hparsed, _, hmanifest, _, hfiles, _, ⟨_, rfl⟩, _, hlength, _,
    ⟨_, rfl⟩, _, ⟨_, rfl⟩, _, ⟨_, rfl⟩, _, _, h⟩ := h
  have hlayout := layout_of_extra hextra
  have hlength := file_manifest_len_eq_ok hlength
  rw [write_image_eq hlayout objects files (by omega)] at h
  refine ⟨hlayout, ⟨parsed, hparsed, hmanifest, hfiles⟩, (Except.ok.inj h).symm, ?_⟩
  rw [← Except.ok.inj h, image_bytes, List.length_append, List.length_append, List.length_append,
    length_header, length_flatMap_object_entry, length_body hlayout]
  omega

/-! ## What is imported -/

/-- What `import_with_fds` has checked of a carrier when it makes an image of it. -/
structure Imports (descriptor : Carrier) (files : List Fd) (image : TransferImage Fd) : Prop where
  carrier : image.descriptor = descriptor
  readonly : descriptor.readonly = true
  header_fits : HEADER_BYTES ≤ descriptor.bytes.length
  bounded : descriptor.bytes.length ≤ MAX_TRANSFER_BYTES
  magic : slice descriptor.bytes 0 8 = MAGIC
  version : readLe 4 descriptor.bytes 8 = VERSION
  header_size : readLe 4 descriptor.bytes 12 = HEADER_BYTES
  file_count : readLe 8 descriptor.bytes 48 = files.length
  manifest_fits :
    HEADER_BYTES + readLe 8 descriptor.bytes 40 * MANIFEST_OBJECT_BYTES ≤ descriptor.bytes.length
  decoded : ∃ decoded, decode_files descriptor.bytes files.length 0
      (HEADER_BYTES + readLe 8 descriptor.bytes 40 * MANIFEST_OBJECT_BYTES) =
        .ok (decoded, image.payload_offset) ∧ attach decoded files = .ok image.files
  layout : TransactionLayout.new (readLe 8 descriptor.bytes 16) (readLe 8 descriptor.bytes 24)
    (readLe 8 descriptor.bytes 32) = some image.layout
  image_fits : image.payload_offset + image.layout.total ≤ descriptor.bytes.length
  padding : zeros (slice descriptor.bytes (image.payload_offset + image.layout.total)
    descriptor.bytes.length) = true
  manifest : decode_objects descriptor.bytes (readLe 8 descriptor.bytes 40) 0 = .ok image.objects
  accepted : ∃ parsed, validate image.data image.offsets = .ok parsed ∧
    validate_manifest parsed image.objects = .ok () ∧
    validate_imported_files parsed image.files = .ok ()

theorem usize_field_eq_ok {bytes : List UInt8} {offset value : ℕ} :
    usize_field bytes offset = .ok value ↔
      offset + 8 ≤ bytes.length ∧ value = readLe 8 bytes offset := by
  unfold usize_field
  simp only [bind_eq_ok, indexRange_eq_ok, pure_eq_ok]
  constructor
  · rintro ⟨_, ⟨⟨_, hfits⟩, rfl⟩, rfl⟩
    exact ⟨hfits, rfl⟩
  · rintro ⟨hfits, rfl⟩
    exact ⟨_, ⟨⟨Nat.le_add_right _ _, hfits⟩, rfl⟩, rfl⟩

/-- The sections of a layout lie in its payload. -/
theorem sections_fit {data offsets extra : ℕ} {layout : TransactionLayout}
    (h : TransactionLayout.new data offsets extra = some layout) :
    (layout.data.start ≤ layout.data.stop ∧ layout.data.stop ≤ layout.total) ∧
    (layout.offsets.start ≤ layout.offsets.stop ∧ layout.offsets.stop ≤ layout.total) := by
  have hdata := le_aligned data
  have hoffsets := le_aligned offsets
  have htotal : aligned data + aligned offsets + aligned extra ≤ layout.total := by
    rw [(new_eq_some.mp h).2]
    exact Nat.le_max_left ..
  rw [(new_eq_some.mp h).2] at *
  simp only [sections] at *
  omega

theorem length_payload {bytes : List UInt8} {start total : ℕ} (h : start + total ≤ bytes.length) :
    (slice bytes start (start + total)).length = total := by
  rw [length_slice h, Nat.add_sub_cancel_left]

theorem import_eq_ok {files : List Fd} :
    import_with_fds descriptor files = .ok image ↔ Imports descriptor files image := by
  unfold import_with_fds validate_carrier
  -- every step that computes a value is replaced by the value, which leaves the checks
  simp only [bind_eq_ok, ensure_eq_ok, okOr_eq_ok, mapError_eq_ok, indexRange_eq_ok, pure_eq_ok,
    usize_field_eq_ok, checked_mul_eq_some, checked_add_eq_some, and_assoc, exists_and_left,
    exists_eq_left, exists_eq_left', exists_const]
  constructor
  · rintro ⟨hreadonly, hfits, hbounded, _, _, hmagic, _, _, hversion, _, _, hsize, _, _, _, _, _,
      hcount, _, _, hmanifest_fits, ⟨decoded, payload_offset⟩, hdecoded, layout, hlayout, _,
      himage_fits, _, _, hpadding, _, _, _, _, _, _, parsed, hparsed, manifest, hmanifest, _,
      hobjects, imported, hattach, _, hfiles, rfl⟩
    rw [hcount] at hdecoded
    exact ⟨rfl, hreadonly, hfits, hbounded, hmagic, hversion, hsize, hcount, hmanifest_fits,
      ⟨decoded, hdecoded, hattach⟩, hlayout, himage_fits, hpadding, hmanifest,
      ⟨parsed, hparsed, hobjects, hfiles⟩⟩
  · intro h
    obtain ⟨carrier, layout, payload_offset, objects, imported⟩ := image
    have hcarrier : carrier = descriptor := h.carrier
    subst hcarrier
    obtain ⟨decoded, hdecoded, hattach⟩ := h.decoded
    obtain ⟨parsed, hparsed, hobjects, hfiles⟩ := h.accepted
    obtain ⟨hdata, hoffsets⟩ := sections_fit h.layout
    -- nothing overflows, since everything lies in a carrier of bounded length
    have hheader : 56 ≤ carrier.bytes.length := h.header_fits
    have hbounded : carrier.bytes.length ≤ 64 * 1024 * 1024 := h.bounded
    have hmanifest_fits := h.manifest_fits
    have himage_fits : payload_offset + layout.total ≤ carrier.bytes.length := h.image_fits
    have hword : payload_offset + layout.total < 2 ^ 64 := by omega
    rw [← length_payload himage_fits] at hdata hoffsets
    rw [← h.file_count] at hdecoded
    refine ⟨h.readonly, h.header_fits, h.bounded, by omega, by omega, h.magic, by omega, by omega,
      h.version, by omega, by omega, h.header_size, by omega, by omega, by omega, by omega,
      by omega, h.file_count, by omega, by omega, h.manifest_fits, _, hdecoded, layout, h.layout,
      hword, himage_fits, himage_fits, le_rfl, h.padding, Nat.le_add_right _ _, himage_fits,
      hdata.1, hdata.2, hoffsets.1, hoffsets.2, parsed, hparsed, objects, h.manifest, (), hobjects,
      imported, hattach, (), hfiles, rfl⟩

/-! ## Safety -/

theorem safe_decode (source : List UInt8) : Safe (DescriptorManifest.decode source) := by
  unfold DescriptorManifest.decode
  refine ensure_bind fun (hheader : 24 ≤ source.length) => ?_
  iterate 3 refine index_bind (by omega) (by omega) ?_
  refine ensure_bind fun _ => ?_
  refine index_bind (by omega) (by omega) ?_
  refine bind (mapError _ _) fun _ hlength => ?_
  obtain ⟨_, rfl⟩ := DescriptorManifest.encoded_len_eq_ok.mp (mapError_eq_ok.mp hlength)
  have hle := le_aligned (DescriptorManifest.ENTRY_HEADER_BYTES + fromLe (slice source 16 20))
  refine ensure_bind fun hfits => ?_
  refine index_bind hle hfits ?_
  refine ensure_bind fun _ => ?_
  refine index_bind (Nat.le_add_right _ _) (by omega) ?_
  exact ok _

theorem safe_decode_files (bytes : List UInt8) (count ordinal payload_offset : ℕ) :
    Safe (decode_files bytes count ordinal payload_offset) := by
  induction count generalizing ordinal payload_offset with
  | zero => exact ok _
  | succ _ ih =>
    rw [decode_files]
    refine ensure_bind fun _ => ?_
    refine bind (mapFault (safe_decode _) _) fun _ _ => ?_
    refine ensure_bind fun _ => ?_
    refine bind (mapError _ fun _ => Error.InvalidFormat) fun _ _ => ?_
    refine okOr_bind fun _ _ => ?_
    refine bind (ih _ _) fun _ _ => ?_
    exact ok _

theorem length_decode_files {bytes : List UInt8} {count ordinal payload_offset stop : ℕ}
    (h : decode_files bytes count ordinal payload_offset = .ok (decoded, stop)) :
    decoded.length = count := by
  induction count generalizing ordinal payload_offset decoded stop with
  | zero =>
    rw [decode_files, Except.ok.injEq, Prod.mk.injEq] at h
    rw [← h.1]
    rfl
  | succ _ ih =>
    rw [decode_files] at h
    simp only [bind_eq_ok, pure_eq_ok] at h
    obtain ⟨_, _, _, _, _, _, _, _, _, _, ⟨_, _⟩, hrest, h⟩ := h
    cases h
    rw [List.length_cons, ih hrest]

theorem safe_decode_strength (byte : List UInt8) : Safe (decode_strength byte) := by
  unfold decode_strength Safe
  split <;> exact fun h => nomatch h

theorem safe_decode_object {entry : List UInt8} (h : entry.length = MANIFEST_OBJECT_BYTES) :
    Safe (decode_object entry) := by
  have h : entry.length = 32 := h
  unfold decode_object
  refine index_bind (by omega) (by omega) ?_
  refine ensure_bind fun _ => ?_
  refine index_bind (by omega) (by omega) ?_
  refine okOr_bind fun _ _ => ?_
  refine index_bind (by omega) (by omega) ?_
  refine okOr_bind fun _ _ => ?_
  refine index_bind (by omega) (by omega) ?_
  refine bind (safe_decode_strength _) fun _ _ => ?_
  refine index_bind (by omega) (by omega) ?_
  refine index_bind (by omega) (by omega) ?_
  exact ok _

theorem safe_decode_objects {bytes : List UInt8} {count index : ℕ}
    (h : HEADER_BYTES + (index + count) * MANIFEST_OBJECT_BYTES ≤ bytes.length) :
    Safe (decode_objects bytes count index) := by
  induction count generalizing index with
  | zero => exact ok _
  | succ count ih =>
    have hentry : HEADER_BYTES + index * MANIFEST_OBJECT_BYTES + MANIFEST_OBJECT_BYTES ≤
        bytes.length := by
      unfold MANIFEST_OBJECT_BYTES at *
      omega
    rw [decode_objects]
    refine index_bind (Nat.le_add_right _ _) hentry ?_
    refine bind (safe_decode_object ?_) fun _ _ => ?_
    · exact length_payload hentry
    refine bind (ih ?_) fun _ _ => ?_
    · rwa [Nat.add_right_comm index 1 count, Nat.add_assoc index count 1]
    exact ok _

/-- There is an entry for each descriptor. -/
theorem safe_attach {files : List Fd}
    (h : decoded.length = files.length) : Safe (attach decoded files) := by
  induction decoded generalizing files with
  | nil =>
    rw [List.eq_nil_of_length_eq_zero h.symm]
    exact ok _
  | cons _ _ ih =>
    cases files with
    | nil => cases h
    | cons =>
      rw [attach]
      refine bind (ih (Nat.succ.inj h)) fun _ _ => ?_
      exact ok _

theorem safe_usize_field {bytes : List UInt8} {offset : ℕ} (h : offset + 8 ≤ bytes.length) :
    Safe (usize_field bytes offset) :=
  of_ok (usize_field_eq_ok.mpr ⟨h, rfl⟩)

theorem safe_validate_carrier (descriptor : Carrier) : Safe (validate_carrier descriptor) :=
  bind (ensure _ _) fun _ _ => ensure _ _

theorem header_of_validate_carrier {u : Unit}
    (h : validate_carrier descriptor = .ok u) : HEADER_BYTES ≤ descriptor.bytes.length := by
  obtain ⟨_, _, h⟩ := bind_eq_ok.mp h
  exact (ensure_eq_ok.mp h).1

/-- **No carrier makes the receiver index outside the image.** -/
theorem safe_import (descriptor : Carrier) (files : List Fd) :
    Safe (import_with_fds descriptor files) := by
  unfold import_with_fds
  refine bind (safe_validate_carrier descriptor) fun _ hcarrier => ?_
  have hheader : 56 ≤ descriptor.bytes.length := header_of_validate_carrier hcarrier
  refine index_bind (by omega) (by omega) ?_
  refine ensure_bind fun _ => ?_
  refine index_bind (by omega) (by omega) ?_
  refine ensure_bind fun _ => ?_
  refine index_bind (by omega) (by omega) ?_
  refine ensure_bind fun _ => ?_
  iterate 5 refine bind (safe_usize_field (by omega)) fun _ _ => ?_
  refine ensure_bind fun hcount => ?_
  refine okOr_bind fun _ hmanifest => ?_
  obtain ⟨_, rfl⟩ := checked_mul_eq_some.mp hmanifest
  refine okOr_bind fun _ hend => ?_
  obtain ⟨_, rfl⟩ := checked_add_eq_some.mp hend
  refine ensure_bind fun hmanifest_fits => ?_
  refine bind (safe_decode_files _ _ _ _) fun ⟨_, _⟩ hdecoded => ?_
  refine okOr_bind fun _ hlayout => ?_
  obtain ⟨hdata, hoffsets⟩ := sections_fit hlayout
  refine okOr_bind fun _ hlogical => ?_
  obtain ⟨_, rfl⟩ := checked_add_eq_some.mp hlogical
  refine ensure_bind fun hfits => ?_
  refine index_bind hfits le_rfl ?_
  refine ensure_bind fun _ => ?_
  refine index_bind (Nat.le_add_right _ _) hfits ?_
  rw [← length_payload hfits] at hdata hoffsets
  refine index_bind hdata.1 hdata.2 ?_
  refine index_bind hoffsets.1 hoffsets.2 ?_
  refine bind (mapError _ _) fun _ _ => ?_
  refine bind (safe_decode_objects ?_) fun _ _ => ?_
  · rwa [Nat.zero_add]
  refine bind (mapFault (Objects.safe_validate_manifest _ _) _) fun _ _ => ?_
  refine bind (safe_attach ?_) fun _ _ => ?_
  · rw [length_decode_files hdecoded, hcount]
  refine ensure_bind fun _ => ?_
  exact ok _

/-! ## The round trip -/

theorem length_le_flatMap_file_entry (files : List (DescriptorBundle Fd)) :
    files.length ≤ (files.flatMap file_entry).length := by
  induction files with
  | nil => exact le_rfl
  | cons file =>
    have hentry := length_entry_of file.offset file.ordinal file.attributes
    have hle := le_aligned (DescriptorManifest.ENTRY_HEADER_BYTES
      + file.attributes.as_bytes.length)
    rw [List.flatMap_cons, List.length_append, List.length_cons, file_entry, hentry]
    unfold DescriptorManifest.ENTRY_HEADER_BYTES at *
    omega

theorem offset_of_describes {references : List Object} {objects : List ManifestObject}
    (h : List.Forall₂ Describes references objects)
    (hoffsets : ∀ object ∈ references, object.offset < 2 ^ 64) :
    ∀ entry ∈ objects, entry.offset < 2 ^ 64 := by
  induction h with
  | nil => exact fun _ hentry => absurd hentry List.not_mem_nil
  | cons hdescribes _ ih =>
    intro entry hentry
    rcases List.mem_cons.mp hentry with rfl | hentry
    · rw [← hdescribes.offset]
      exact hoffsets _ List.mem_cons_self
    · exact ih (fun o ho => hoffsets o (List.mem_cons_of_mem _ ho)) entry hentry

/-- An accepted manifest names offsets of the table. -/
theorem offset_of_manifest {data offsets : List UInt8} {parsed : List Object}
    {objects : List ManifestObject} (hparsed : validate data offsets = .ok parsed)
    (hmanifest : validate_manifest parsed objects = .ok ()) :
    ∀ entry ∈ objects, entry.offset < 2 ^ 64 :=
  offset_of_describes (Objects.validate_manifest_eq_ok.mp hmanifest) fun object hobject =>
    Objects.validate_offset hparsed object (List.mem_of_mem_filter hobject)

/-- Accepted descriptors have offsets of the table. -/
theorem offset_of_files {data offsets : List UInt8} {parsed : List Object}
    {files : List (DescriptorBundle Fd)} (hparsed : validate data offsets = .ok parsed)
    (hfiles : validate_files parsed files = .ok ()) : ∀ file ∈ files, file.offset < 2 ^ 64 := by
  intro file hfile
  have hplaces := check_files_eq_ok.mp hfiles
  have hmem : (file.offset, file.ordinal) ∈ (direct parsed).zipIdx.map place := by
    rw [← hplaces]
    exact List.mem_map_of_mem hfile
  obtain ⟨⟨offset, _⟩, hindex, hplace⟩ := List.mem_map.mp hmem
  have hoffset : offset = file.offset := congrArg Prod.fst hplace
  obtain ⟨object, hobject, rfl⟩ := List.mem_map.mp (List.fst_mem_of_mem_zipIdx hindex)
  rw [← hoffset]
  exact Objects.validate_offset hparsed object (List.mem_of_mem_filter hobject)

section Captured

variable {snapshot : TransactionSnapshot} {extra : List UInt8} {objects : List ManifestObject}
  {files : List (DescriptorBundle Fd)} {bytes : List UInt8}

section

variable (h : Captured snapshot extra objects files bytes)
include h

theorem Captured.length_eq :
    bytes.length = HEADER_BYTES + (objects.flatMap object_entry).length
      + (files.flatMap file_entry).length + snapshot.layout.total := by
  rw [h.bytes_eq]
  simp only [image_bytes, List.length_append, length_header, length_body h.layout]
  omega

/-- Every length that the header holds is a machine word. -/
theorem Captured.lengths :
    snapshot.data.length < 2 ^ 64 ∧ snapshot.offsets.length < 2 ^ 64 ∧ extra.length < 2 ^ 64 ∧
      objects.length < 2 ^ 64 ∧ files.length < 2 ^ 64 := by
  have hlength := h.length_eq
  have hfits := h.fits
  have hobjects := length_flatMap_object_entry objects
  have hobjects_le : objects.length ≤ objects.length * MANIFEST_OBJECT_BYTES :=
    Nat.le_mul_of_pos_right _ (by decide)
  have hfiles := length_le_flatMap_file_entry files
  have hbody := length_body h.layout
  simp only [body, List.length_append, List.length_replicate] at hbody
  have hmax : MAX_TRANSFER_BYTES < 2 ^ 64 := by decide
  omega

/-- What the receiver reads in the header. -/
theorem Captured.header (padding : List UInt8) :
    slice (bytes ++ padding) 0 8 = MAGIC ∧
    readLe 4 (bytes ++ padding) 8 = VERSION ∧
    readLe 4 (bytes ++ padding) 12 = HEADER_BYTES ∧
    readLe 8 (bytes ++ padding) 16 = snapshot.data.length ∧
    readLe 8 (bytes ++ padding) 24 = snapshot.offsets.length ∧
    readLe 8 (bytes ++ padding) 32 = extra.length ∧
    readLe 8 (bytes ++ padding) 40 = objects.length ∧
    readLe 8 (bytes ++ padding) 48 = files.length := by
  obtain ⟨hdata, hoffsets, hextra, hobjects, hfiles⟩ := h.lengths
  have hmagic (n : ℕ) (l : List UInt8) (offset : ℕ) :
      readLe n (MAGIC ++ l) (offset + 8) = readLe n l offset := by
    rw [Nat.add_comm]
    exact readLe_append_right n MAGIC l offset
  have hversion : VERSION < 256 ^ 4 := by decide
  have hsize : HEADER_BYTES < 256 ^ 4 := by decide
  rw [h.bytes_eq]
  simp only [image_bytes, TransferImage.header, List.append_assoc]
  refine ⟨slice_first _ rfl, ?_, ?_, ?_, ?_, ?_, ?_, ?_⟩ <;>
    simp only [hmagic, readLe_skip _ 4, readLe_skip _ 8]
  · exact readLe_toLe _ hversion
  · exact readLe_toLe _ hsize
  · exact readLe_toLe _ hdata
  · exact readLe_toLe _ hoffsets
  · exact readLe_toLe _ hextra
  · exact readLe_toLe _ hobjects
  · exact readLe_toLe _ hfiles

/-- What the receiver reads in the object manifest. -/
theorem Captured.manifest (padding : List UInt8) :
    decode_objects (bytes ++ padding) objects.length 0 = .ok objects := by
  obtain ⟨_, hparsed, hmanifest, _⟩ := h.accepted
  rw [h.bytes_eq]
  simp only [image_bytes, List.append_assoc]
  exact decode_objects_flatMap (offset_of_manifest hparsed hmanifest) _ _ 0 (length_header ..)

/-- What the receiver reads in the descriptor manifest. -/
theorem Captured.descriptors (padding : List UInt8) :
    decode_files (bytes ++ padding) files.length 0
        (HEADER_BYTES + (objects.flatMap object_entry).length) =
      .ok (files.map fun file => (file.offset, file.ordinal, file.attributes),
        HEADER_BYTES + (objects.flatMap object_entry).length
          + (files.flatMap file_entry).length) := by
  obtain ⟨_, hparsed, _, hfiles⟩ := h.accepted
  have hlength := h.length_eq
  have hfits := h.fits
  have hmax : MAX_TRANSFER_BYTES < 2 ^ 64 := by decide
  have hbefore := length_header snapshot.data.length snapshot.offsets.length extra.length
    objects.length files.length
  rw [h.bytes_eq, ← hbefore, ← List.length_append]
  simp only [image_bytes, List.append_assoc]
  rw [← List.append_assoc]
  refine decode_files_flatMap (check_files_eq_ok.mp hfiles) (offset_of_files hparsed hfiles) _ _ ?_
  rw [List.length_append]
  omega

/-- **A captured image is imported as it was captured**, whatever zeros follow it, as long as the
carrier stays within the bound of a transfer. -/
theorem Captured.imports {padding : ℕ} (hpadding : bytes.length + padding ≤ MAX_TRANSFER_BYTES) :
    Imports ⟨true, bytes ++ List.replicate padding 0⟩ (files.map DescriptorBundle.descriptor)
      (received snapshot objects files (bytes ++ List.replicate padding 0)) := by
  obtain ⟨parsed, hparsed, hmanifest, hfiles⟩ := h.accepted
  obtain ⟨hmagic, hversion, hsize, hdata, hoffsets, hextra, hcount, hfile_count⟩ :=
    h.header (List.replicate padding 0)
  obtain ⟨hslice_data, hslice_offsets, _⟩ := slice_body h.layout
  have hpayload := payload_received h.layout objects files (List.replicate padding 0)
  rw [← h.bytes_eq] at hpayload
  have hlength := h.length_eq
  have hpadded : (bytes ++ List.replicate padding (0 : UInt8)).length = bytes.length + padding := by
    rw [List.length_append, List.length_replicate]
  have hobjects := length_flatMap_object_entry objects
  refine
    { carrier := rfl
      readonly := rfl
      header_fits := by dsimp only; omega
      bounded := by dsimp only; omega
      magic := hmagic
      version := hversion
      header_size := hsize
      file_count := by rw [hfile_count, List.length_map]
      manifest_fits := by dsimp only; rw [hcount]; omega
      decoded := ⟨_, ?_, attach_map files⟩
      layout := by rw [hdata, hoffsets, hextra]; exact h.layout
      image_fits := by dsimp only [received]; omega
      padding := ?_
      manifest := by rw [hcount]; exact h.manifest _
      accepted := ⟨parsed, ?_, hmanifest, ?_⟩ }
  · rw [hcount, List.length_map, ← hobjects]
    exact h.descriptors _
  · dsimp only [received]
    rw [← hlength, hpadded]
    refine List.all_eq_true.mpr fun _ hbyte => beq_iff_eq.mpr ?_
    have hzeros := (slice_append_right bytes (List.replicate padding (0 : UInt8)) 0 padding).trans
      (slice_all (List.length_replicate ..))
    rw [Nat.add_zero] at hzeros
    rw [hzeros] at hbyte
    exact List.eq_of_mem_replicate hbyte
  · unfold TransferImage.data TransferImage.offsets
    rw [hpayload]
    dsimp only [received]
    rwa [hslice_data, hslice_offsets]
  · unfold validate_imported_files
    dsimp only [received]
    rwa [List.map_map]

/-- The accessors of a received image give back what was captured. -/
theorem Captured.sections (padding : List UInt8) :
    (received snapshot objects files (bytes ++ padding)).data = snapshot.data ∧
    (received snapshot objects files (bytes ++ padding)).offsets = snapshot.offsets ∧
    (received snapshot objects files (bytes ++ padding)).extra = extra := by
  have hpayload := payload_received h.layout objects files padding
  rw [← h.bytes_eq] at hpayload
  unfold TransferImage.data TransferImage.offsets TransferImage.extra
  rw [hpayload]
  exact slice_body h.layout

end

end Captured

/-! ## What holds of transfer images -/

theorem attach_descriptors {files : List Fd}
    {imported : List (TransferFd Fd)} (h : attach decoded files = .ok imported) :
    imported.map TransferFd.descriptor = files := by
  induction files generalizing decoded imported with
  | nil =>
    rw [attach, Except.ok.injEq] at h
    rw [← h]
    rfl
  | cons _ _ ih =>
    cases decoded with
    | nil => cases h
    | cons =>
      rw [attach] at h
      obtain ⟨_, hrest, h⟩ := bind_eq_ok.mp h
      rw [← Except.ok.inj h, List.map_cons, ih hrest]

/-- The manifests of an image match the objects of its data, one by one and in their order, and
its descriptors are those that came with the carrier. -/
def Consistent (image : TransferImage Fd) (files : List Fd) : Prop :=
  ∃ parsed, validate image.data image.offsets = .ok parsed ∧
    List.Forall₂ Describes (parsed.filter Object.is_reference) image.objects ∧
    image.files.map (fun file => (file.offset, file.ordinal)) =
      (direct parsed).zipIdx.map place ∧
    image.files.map TransferFd.descriptor = files

theorem Imports.consistent {files : List Fd}
    (h : Imports descriptor files image) : Consistent image files := by
  obtain ⟨parsed, hparsed, hobjects, hfiles⟩ := h.accepted
  obtain ⟨_, _, hattach⟩ := h.decoded
  exact ⟨parsed, hparsed, Objects.validate_manifest_eq_ok.mp hobjects,
    check_files_eq_ok.mp hfiles, attach_descriptors hattach⟩

/-- What is captured is imported again under any padding within the bound of a transfer: the same
sections, layout and manifest, and each descriptor with its own offset, ordinal and attributes.
Importing indexes outside of no image, and accepts only what is consistent. -/
theorem transfer_image_round_trip :
    (∀ (rounding : ℕ) (snapshot : TransactionSnapshot) (extra : List UInt8)
        (objects : List ManifestObject) (files : List (DescriptorBundle Fd))
        (captured : TransferImage Fd),
      capture_with_objects_and_descriptors rounding snapshot extra objects files = .ok captured →
      ∃ bytes, capture_bytes snapshot extra objects files = .ok bytes ∧
        ∀ padding, bytes.length + padding ≤ MAX_TRANSFER_BYTES →
          ∃ image, import_with_fds ⟨true, bytes ++ List.replicate padding 0⟩
              (files.map DescriptorBundle.descriptor) = .ok image ∧
            image.data = snapshot.data ∧ image.offsets = snapshot.offsets ∧ image.extra = extra ∧
            image.layout = snapshot.layout ∧ image.objects = objects ∧
            image.files = files.map fun file =>
              ⟨file.offset, file.ordinal, file.attributes, file.descriptor⟩) ∧
    (∀ (descriptor : Carrier) (files : List Fd), Safe (import_with_fds descriptor files)) ∧
    (∀ (descriptor : Carrier) (files : List Fd) (image : TransferImage Fd),
      import_with_fds descriptor files = .ok image → Consistent image files) := by
  refine ⟨?_, safe_import, ?_⟩
  · intro rounding snapshot extra objects files captured h
    obtain ⟨bytes, hbytes, _⟩ := bind_eq_ok.mp h
    refine ⟨bytes, hbytes, fun padding hpadding => ?_⟩
    have hcaptured := capture_bytes_spec hbytes
    obtain ⟨hdata, hoffsets, hextra⟩ := hcaptured.sections (List.replicate padding 0)
    exact ⟨_, import_eq_ok.mpr (hcaptured.imports hpadding), hdata, hoffsets, hextra, rfl, rfl, rfl⟩
  · intro descriptor files image h
    exact (import_eq_ok.mp h).consistent

/-- A transaction with a handle and a descriptor is captured. -/
example : ((TransactionSnapshot.capture (toLe 4 Objects.Kind.Handle.tag ++ List.replicate 20 0 ++
      toLe 4 Objects.Kind.Fd.tag ++ List.replicate 20 0) (toLe 8 0 ++ toLe 8 24) 0).toOption.bind
    fun snapshot => (capture_with_objects_and_descriptors 0 snapshot []
      [⟨0, ⟨⟨1, by decide, by decide⟩, ⟨1, by decide, by decide⟩⟩, .Strong, 0⟩]
      [⟨24, 0, (), ⟨[7], by decide⟩⟩]).toOption).isSome = true := by
  decide +kernel

/-- A carrier beyond the bound of a transfer is refused, whatever it holds. -/
theorem import_beyond_bound {bytes : List UInt8} (files : List Fd)
    (h : MAX_TRANSFER_BYTES < bytes.length) :
    import_with_fds ⟨true, bytes⟩ files = .error invalid := by
  have hcarrier : validate_carrier ⟨true, bytes⟩ = .error invalid := by
    unfold validate_carrier
    rw [ensure_of _ rfl, ok_bind]
    exact if_neg fun hbounds => Nat.not_le_of_lt h hbounds.2
  unfold import_with_fds
  rw [hcarrier]
  rfl

/-- The snapshot of the empty transaction. -/
def empty_snapshot : TransactionSnapshot where
  data := []
  offsets := []
  layout := TransactionLayout.sections 0 0 0
  laid_out := ⟨0, rfl, TransactionLayout.new_eq_some.mpr ⟨by decide, rfl⟩⟩
  validated := ⟨[], rfl⟩

theorem capture_empty_snapshot :
    capture_bytes empty_snapshot [] [] ([] : List (DescriptorBundle Fd)) =
      .ok (image_bytes empty_snapshot [] [] ([] : List (DescriptorBundle Fd))) := by
  have hlayout := (layout_of_extra rfl : new empty_snapshot.data.length
    empty_snapshot.offsets.length ([] : List UInt8).length = some empty_snapshot.layout)
  have hwrite := write_image_eq hlayout [] ([] : List (DescriptorBundle Fd)) rfl
  unfold capture_bytes
  simp only [bind_eq_ok, ensure_eq_ok, okOr_eq_ok, mapError_eq_ok, checked_mul_eq_some,
    checked_add_eq_some]
  exact ⟨(), rfl, [], rfl, (), rfl, (), rfl, _, ⟨by decide, rfl⟩, 0, rfl, _, ⟨by decide, rfl⟩, _,
    ⟨by decide, rfl⟩, _, ⟨by decide, rfl⟩, (), by decide, hwrite⟩

/-- So padding beyond that bound is not accepted: the empty transaction is captured, but its image
is refused behind sixty-four megabytes of zeros. -/
theorem padding_beyond_bound_refused :
    ∃ (snapshot : TransactionSnapshot) (bytes : List UInt8) (captured : TransferImage Unit),
      capture_with_objects_and_descriptors 0 snapshot [] [] [] = .ok captured ∧
      capture_bytes snapshot [] [] ([] : List (DescriptorBundle Unit)) = .ok bytes ∧
      import_with_fds ⟨true, bytes ++ List.replicate MAX_TRANSFER_BYTES 0⟩ ([] : List Unit) =
        .error invalid := by
  have hbytes : capture_bytes empty_snapshot [] [] ([] : List (DescriptorBundle Unit)) = _ :=
    capture_empty_snapshot
  have hcaptured := capture_bytes_spec hbytes
  have haccepted := import_eq_ok.mpr (hcaptured.imports (show _ + 0 ≤ _ from hcaptured.fits))
  refine ⟨empty_snapshot, _, _, bind_eq_ok.mpr ⟨_, hbytes, haccepted⟩, hbytes,
    import_beyond_bound [] ?_⟩
  rw [List.length_append, List.length_replicate, hcaptured.length_eq]
  unfold HEADER_BYTES
  omega

end TransferImage

end DarwinArt.Binder
