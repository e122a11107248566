/-
Receive allocations and who owns them: `prepared_transaction.rs` and `owned_transaction.rs`.

A transaction is prepared in a region of the receiver's arena: the region is reserved,
cleared, filled and rewritten, and only then published. A preparation that fails gives its
region back. What is published belongs to an `OwnedTransaction`, which gives the region
back when it is dropped.

`Owns` is the account of it: the addresses of the live allocations, each once. Filling a
region does not touch the account; `prepare_rewritten_spec` says what a preparation does to
it, and `Owns.release` what a drop does.

Descriptors are left out, and so is the poisoned lock. Both drops check that the arena takes
the region back (`expect`, `abort`); `none` is that they stop the process.
-/
import DarwinArt.Binder.ReceiveArena
import DarwinArt.Binder.TransactionLayout
import DarwinArt.Binder.TransactionQueue

set_option autoImplicit false

namespace DarwinArt.Binder

open Lib

/-- `TransactionPayload`: the sections of a transaction. Both implementations lay out the
sections they have. -/
structure TransactionPayload where
  data : List UInt8
  offsets : List UInt8
  extra_size : ℕ
  layout : TransactionLayout
  laid_out : TransactionLayout.new data.length offsets.length extra_size = some layout

/-- `Rewrite`: the bytes of one translated object. -/
structure Rewrite where
  offset : ℕ
  bytes : List UInt8
  size : bytes.length = 24

def ReceiveMapping.clear (m : ReceiveMapping) (offset length : ℕ) :
    Except Errno Unit × ReceiveMapping :=
  match checked_add 64 offset length with
  | none => (.error .EINVAL, m)
  | some stop =>
    if m.length < stop then (.error .EINVAL, m)
    else
      (.ok (), { m with pages := fun i => if offset ≤ i ∧ i < offset + length then 0 else m.pages i })

namespace ReceiveArena

def clear (a : ReceiveArena) (address : ℕ) : Except Errno Unit × ReceiveArena :=
  match checked_sub address a.mapping.client_address with
  | none => (.error .EINVAL, a)
  | some start =>
    match a.allocated[start]? with
    | none => (.error .EINVAL, a)
    | some length =>
      let (result, mapping) := a.mapping.clear start length
      (result, { a with mapping := mapping })

def reserve_transaction (a : ReceiveArena) (layout : TransactionLayout) :
    Except Errno ℕ × ReceiveArena :=
  a.allocate layout.total

end ReceiveArena

namespace PreparedTransaction

section

variable (arena : ReceiveArena) (address : ℕ) (payload : TransactionPayload)

/-- The sections are copied into the region, which was cleared before. -/
def fill : Except Errno Unit × ReceiveArena :=
  match arena.clear address with
  | (.error e, arena) => (.error e, arena)
  | (.ok (), arena) =>
    match arena.write address payload.layout.data.start payload.data with
    | (.error e, arena) => (.error e, arena)
    | (.ok (), arena) => arena.write address payload.layout.offsets.start payload.offsets

def rewrite_data (offset : ℕ) (bytes : List UInt8) : Except Errno Unit × ReceiveArena :=
  match checked_add 64 offset bytes.length with
  | none => (.error .EINVAL, arena)
  | some stop =>
    if payload.layout.data.len < stop then (.error .EINVAL, arena)
    else arena.write address (payload.layout.data.start + offset) bytes

end

/-- The rewrites of a transaction, up to the first that fails. -/
def rewrite_all (arena : ReceiveArena) (address : ℕ) (payload : TransactionPayload) :
    List Rewrite → Except Errno Unit × ReceiveArena
  | [] => (.ok (), arena)
  | rewrite :: rewrites =>
    match rewrite_data arena address payload rewrite.offset rewrite.bytes with
    | (.error e, arena) => (.error e, arena)
    | (.ok (), arena) => rewrite_all arena address payload rewrites

/-- `PreparedTransaction::drop` of a preparation that was not published. -/
def drop (arena : ReceiveArena) (address : ℕ) : Option ReceiveArena :=
  match arena.release address with
  | (.error _, _) => none
  | (.ok (), arena) => some arena

end PreparedTransaction

namespace OwnedTransaction

open PreparedTransaction

/-- What a record shows of a payload published at an address: `buffer_address`, the lengths of
the two sections, and `offsets_address`. -/
def allocation (payload : TransactionPayload) (address : ℕ) : Allocation :=
  ⟨address, payload.layout.data.len, payload.layout.offsets.len,
    address + payload.layout.offsets.start⟩

/-- `prepare_rewritten_with_fds`. -/
def prepare_rewritten (arena : ReceiveArena) (payload : TransactionPayload)
    (rewrites : List Rewrite) : Option (Except Errno Allocation × ReceiveArena) :=
  match arena.reserve_transaction payload.layout with
  | (.error e, arena) => some (.error e, arena)
  | (.ok address, arena) =>
    match fill arena address payload with
    | (.error e, arena) => (PreparedTransaction.drop arena address).map fun arena => (.error e, arena)
    | (.ok (), arena) =>
      match rewrite_all arena address payload rewrites with
      | (.error e, arena) =>
        (PreparedTransaction.drop arena address).map fun arena => (.error e, arena)
      | (.ok (), arena) =>
        some (.ok (allocation payload address), arena)

def drop (arena : ReceiveArena) (allocation : Allocation) : Option ReceiveArena :=
  match arena.release allocation.buffer_address with
  | (.error _, _) => none
  | (.ok (), arena) => some arena

end OwnedTransaction

/-! ## The account of an arena -/

namespace ReceiveArena

/-- The live allocations of the arena start at these addresses, each at one of them. -/
structure Owns (a : ReceiveArena) (addresses : List ℕ) : Prop where
  wf : a.Wf
  nodup : addresses.Nodup
  mem : ∀ address, address ∈ addresses ↔
    ∃ o l : ℕ, a.allocated[o]? = some l ∧ address = a.mapping.client_address + o

/-- The two arenas have the same regions at the same place; their pages may differ. -/
structure SameRegions (a a' : ReceiveArena) : Prop where
  free : a'.free = a.free
  allocated : a'.allocated = a.allocated
  client_address : a'.mapping.client_address = a.mapping.client_address
  length : a'.mapping.length = a.mapping.length

/-- Of the pages, only those of the region at `o` of length `k` may differ. -/
structure Confined (o k : ℕ) (a a' : ReceiveArena) : Prop extends SameRegions a a' where
  pages : ∀ i, i < o ∨ o + k ≤ i → a'.mapping.pages i = a.mapping.pages i

/-- The two arenas have the same regions, and the live allocations the same bytes. -/
structure Restored (a a' : ReceiveArena) : Prop extends SameRegions a a' where
  bytes : ∀ o l : ℕ, a.allocated[o]? = some l →
    ∀ i, o ≤ i → i < o + l → a'.mapping.pages i = a.mapping.pages i

section Owns

variable {a a' a'' : ReceiveArena} {addresses : List ℕ} {address o k : ℕ}

theorem SameRegions.refl (a : ReceiveArena) : SameRegions a a := ⟨rfl, rfl, rfl, rfl⟩

theorem SameRegions.trans (h : SameRegions a a') (h' : SameRegions a' a'') : SameRegions a a'' where
  free := h'.free.trans h.free
  allocated := h'.allocated.trans h.allocated
  client_address := h'.client_address.trans h.client_address
  length := h'.length.trans h.length

theorem Confined.refl (o k : ℕ) (a : ReceiveArena) : Confined o k a a :=
  ⟨.refl a, fun _ _ => rfl⟩

theorem Confined.trans (h : Confined o k a a') (h' : Confined o k a' a'') : Confined o k a a'' :=
  ⟨h.toSameRegions.trans h'.toSameRegions, fun i hi => (h'.pages i hi).trans (h.pages i hi)⟩

/-- The region is still live. -/
theorem Confined.live (h : Confined o k a a') (ho : a.allocated[o]? = some k) :
    a'.allocated[o]? = some k := by
  rwa [h.allocated]

theorem Restored.refl (a : ReceiveArena) : Restored a a := ⟨.refl a, fun _ _ _ _ _ _ => rfl⟩

theorem Owns.same (h : Owns a addresses) (hsame : SameRegions a a') : Owns a' addresses := by
  constructor
  · constructor
    · rw [hsame.length, hsame.free, hsame.allocated]
      exact h.wf.tiled
    · rw [hsame.free]
      exact h.wf.coalesced
  · exact h.nodup
  · rw [hsame.allocated, hsame.client_address]
    exact h.mem

/-- The order of the account does not matter. -/
theorem Owns.perm (h : Owns a addresses) {addresses' : List ℕ} (hperm : addresses'.Perm addresses) :
    Owns a addresses' where
  wf := h.wf
  nodup := hperm.nodup_iff.mpr h.nodup
  mem := fun address => hperm.mem_iff.trans (h.mem address)

theorem owns_new {capacity : ℕ} {kernel : MapOutcome capacity}
    (h : ReceiveArena.new capacity kernel = .ok a) : Owns a [] := by
  obtain ⟨-, -, hwf, hholds⟩ := new_spec h
  refine ⟨hwf, List.nodup_nil, fun _ => ?_⟩
  constructor
  · intro hmem
    exact absurd hmem List.not_mem_nil
  · rintro ⟨o, l, ho, -⟩
    obtain ⟨p, hp, -⟩ := hholds.all o l ho
    exact absurd hp List.not_mem_nil

/-- **An allocation is a new address**, or nothing happens. -/
theorem Owns.allocate (h : Owns a addresses) (n : ℕ) :
    (∃ e, a.allocate n = (.error e, a)) ∨
      ∃ address a', a.allocate n = (.ok address, a') ∧ Owns a' (address :: addresses) ∧
        a'.mapping = a.mapping := by
  rcases allocate_cases a n with ⟨-, heq⟩ | ⟨-, -, heq⟩ | ⟨-, o, l, hfit, heq⟩
  · exact .inl ⟨_, heq⟩
  · exact .inl ⟨_, heq⟩
  · obtain ⟨ho, hfits, -⟩ := smallest_fit_spec hfit
    obtain ⟨-, hpos, hword⟩ := roundUp_spec n
    refine .inr ⟨_, _, heq, ⟨h.wf.hand_out ho hpos hfits hword, ?_, ?_⟩, rfl⟩
    · rw [List.nodup_cons]
      refine ⟨fun hmem => ?_, h.nodup⟩
      obtain ⟨o', l', ho', haddress⟩ := (h.mem _).mp hmem
      have hne := (h.wf.tiled.apart_mixed ho ho').1
      omega
    · intro address
      show _ ↔ ∃ o' l' : ℕ, (a.allocated.insert o (roundUp n))[o']? = some l' ∧
        address = a.mapping.client_address + o'
      rw [List.mem_cons, h.mem]
      constructor
      · rintro (heq | ⟨o', l', ho', haddress⟩)
        · exact ⟨o, roundUp n, getElem?_insert_self, heq⟩
        · have hne := (h.wf.tiled.apart_mixed ho ho').1
          refine ⟨o', l', ?_, haddress⟩
          rwa [getElem?_insert_ne hne]
      · rintro ⟨o', l', ho', haddress⟩
        by_cases hsame : o = o'
        · rw [← hsame] at haddress
          exact .inl haddress
        · rw [getElem?_insert_ne hsame] at ho'
          exact .inr ⟨o', l', ho', haddress⟩

/-- **What is owned can be given back.** -/
theorem Owns.release (h : Owns a (address :: addresses)) :
    ∃ a', a.release address = (.ok (), a') ∧ Owns a' addresses ∧ a'.mapping = a.mapping := by
  obtain ⟨hnot, hnodup⟩ := List.nodup_cons.mp h.nodup
  obtain ⟨o₀, l₀, ho₀, haddress₀⟩ := (h.mem address).mp List.mem_cons_self
  rcases release_cases h.wf address with ⟨hnone, -⟩ | ⟨o, l, _, haddress, _, heq, hwf⟩
  · exact absurd haddress₀ (hnone o₀ l₀ ho₀)
  · refine ⟨_, heq, ⟨hwf, hnodup, fun other => ?_⟩, rfl⟩
    show _ ↔ ∃ o' l' : ℕ, (a.allocated.erase o)[o']? = some l' ∧
      other = a.mapping.client_address + o'
    have hmem := h.mem other
    rw [List.mem_cons] at hmem
    constructor
    · intro hother
      obtain ⟨o', l', ho', hat⟩ := hmem.mp (.inr hother)
      refine ⟨o', l', ?_, hat⟩
      have hne : o ≠ o' := by
        rintro rfl
        rw [hat, ← haddress] at hother
        exact hnot hother
      rwa [getElem?_erase_ne hne]
    · rintro ⟨o', l', ho', hat⟩
      obtain ⟨hne, ho'⟩ := getElem?_erase_cases ho'
      rcases hmem.mpr ⟨o', l', ho', hat⟩ with _ | hother
      · omega
      · exact hother

end Owns

/-! ## Filling a region -/

section Fill

variable {a : ReceiveArena} {o k : ℕ}

theorem mapping_clear_frame (m : ReceiveMapping) (offset length : ℕ) :
    (m.clear offset length).2.client_address = m.client_address ∧
      (m.clear offset length).2.length = m.length ∧
      ∀ i, i < offset ∨ offset + length ≤ i → (m.clear offset length).2.pages i = m.pages i := by
  unfold ReceiveMapping.clear
  split
  · exact ⟨rfl, rfl, fun _ _ => rfl⟩
  split
  · exact ⟨rfl, rfl, fun _ _ => rfl⟩
  · refine ⟨rfl, rfl, fun i _ => ?_⟩
    have hout : ¬ (offset ≤ i ∧ i < offset + length) := by omega
    exact if_neg hout

theorem mapping_write_length (m : ReceiveMapping) (offset : ℕ) (data : List UInt8) :
    (m.write offset data).2.length = m.length := by
  unfold ReceiveMapping.write
  split
  · rfl
  split
  · rfl
  · rfl

section

variable (ho : a.allocated[o]? = some k)
include ho

theorem write_confined (offset : ℕ) (data : List UInt8) :
    Confined o k a (a.write (a.mapping.client_address + o) offset data).2 := by
  have hstart : checked_sub (a.mapping.client_address + o) a.mapping.client_address = some o :=
    checked_sub_eq_some.mpr ⟨by omega, by omega⟩
  simp only [ReceiveArena.write, hstart, ho]
  split
  · exact .refl o k a
  next stop hstop =>
  have hstop := (checked_add_eq_some.mp hstop).2
  split
  · exact .refl o k a
  · obtain ⟨hbase, hpages⟩ := mapping_write_frame a.mapping (o + offset) data
    refine ⟨⟨rfl, rfl, hbase, mapping_write_length _ _ _⟩, fun i _ => hpages i ?_⟩
    omega

theorem clear_confined :
    Confined o k a (a.clear (a.mapping.client_address + o)).2 := by
  have hstart : checked_sub (a.mapping.client_address + o) a.mapping.client_address = some o :=
    checked_sub_eq_some.mpr ⟨by omega, by omega⟩
  simp only [ReceiveArena.clear, hstart, ho]
  obtain ⟨hbase, hlength, hpages⟩ := mapping_clear_frame a.mapping o k
  exact ⟨⟨rfl, rfl, hbase, hlength⟩, hpages⟩

theorem fill_confined (payload : TransactionPayload) :
    Confined o k a (PreparedTransaction.fill a (a.mapping.client_address + o) payload).2 := by
  have hclear := clear_confined ho
  unfold PreparedTransaction.fill
  split
  · next e a₁ heq =>
    rwa [heq] at hclear
  next a₁ heq =>
  rw [heq] at hclear
  have hwrite := write_confined (hclear.live ho) payload.layout.data.start payload.data
  rw [hclear.client_address] at hwrite
  split
  · next e a₂ heq' =>
    rw [heq'] at hwrite
    exact hclear.trans hwrite
  next a₂ heq' =>
  rw [heq'] at hwrite
  have hboth := hclear.trans hwrite
  have hlast := write_confined (hboth.live ho) payload.layout.offsets.start payload.offsets
  rw [hboth.client_address] at hlast
  exact hboth.trans hlast

theorem rewrite_data_confined (payload : TransactionPayload) (offset : ℕ) (bytes : List UInt8) :
    Confined o k a
      (PreparedTransaction.rewrite_data a (a.mapping.client_address + o) payload offset bytes).2 := by
  unfold PreparedTransaction.rewrite_data
  split
  · exact .refl o k a
  split
  · exact .refl o k a
  · exact write_confined ho _ _

theorem rewrite_all_confined (payload : TransactionPayload) (rewrites : List Rewrite) :
    Confined o k a
      (PreparedTransaction.rewrite_all a (a.mapping.client_address + o) payload rewrites).2 := by
  induction rewrites generalizing a with
  | nil => exact .refl o k a
  | cons rewrite _ ih =>
    have hone := rewrite_data_confined ho payload rewrite.offset rewrite.bytes
    unfold PreparedTransaction.rewrite_all
    split
    · next e a₁ heq =>
      rwa [heq] at hone
    · next a₁ heq =>
      rw [heq] at hone
      have hrest := ih (hone.live ho)
      rw [hone.client_address] at hrest
      exact hone.trans hrest

end

/-! ## Giving a region back -/

/-- What was left of the region is joined with it again. -/
theorem join_next_hand_out {l : ℕ} {free : Map ℕ ℕ} (h : Wf a) (ho : a.free[o]? = some l)
    (hpos : 0 < k) (hkl : k ≤ l) (hfree : free = (a.hand_out o l k).free) :
    (join_next free o k).2.insert (join_next free o k).1.1 (join_next free o k).1.2 = a.free := by
  unfold hand_out at hfree
  by_cases hlt : k < l
  · have hrest : a.free[o + k]? = none := by
      cases hentry : a.free[o + k]? with
      | none => rfl
      | some =>
        have hapart := h.tiled.apart_free ho hentry (by omega)
        have hrest := h.tiled.pos_free hentry
        omega
    have hfree : free = (a.free.erase o).insert (o + k) (l - k) := by
      rw [hfree]
      exact if_pos hlt
    have hentry : free[o + k]? = some (l - k) := by
      rw [hfree]
      exact getElem?_insert_self
    simp only [join_next, hentry]
    rw [hfree, Nat.add_sub_cancel' hkl]
    apply ext_getElem?
    intro x
    grind
  · have hk : k = l := by omega
    have hfree : free = a.free.erase o := by
      rw [hfree]
      exact if_neg hlt
    have hentry : free[o + k]? = none := by
      rw [hfree]
      have hend := h.coalesced o l
      grind
    simp only [join_next, hentry]
    rw [hfree, hk]
    apply ext_getElem?
    intro x
    grind

/-- **What was handed out goes back to where it was.** No free region touched it, so it is joined
with what was left of its own region, and with nothing else. -/
theorem release_hand_out {a₂ : ReceiveArena} {l : ℕ} (h : Wf a) (ho : a.free[o]? = some l)
    (hpos : 0 < k) (hkl : k ≤ l) (hsame : SameRegions (a.hand_out o l k) a₂) :
    a₂.release (a.mapping.client_address + o) =
      (.ok (), { a₂ with free := a.free, allocated := a.allocated }) := by
  have hstart : checked_sub (a.mapping.client_address + o) a₂.mapping.client_address = some o := by
    rw [hsame.client_address]
    exact checked_sub_eq_some.mpr ⟨by simp [hand_out], rfl⟩
  have hfree : a.allocated[o]? = none := h.tiled.separate o l ho
  have hlive : a₂.allocated[o]? = some k := by
    rw [hsame.allocated]
    exact getElem?_insert_self
  have hback : a₂.allocated.erase o = a.allocated := by
    rw [hsame.allocated]
    show (a.allocated.insert o k).erase o = a.allocated
    rw [erase_insert, erase_of_none hfree]
  -- nothing free ends where the region starts
  have hprevious : join_previous a₂.free o k = ((o, k), a₂.free) := by
    unfold join_previous
    split
    · next previous size hlast =>
      obtain ⟨hentry, _, -⟩ := lastBelow_eq_some hlast
      rw [if_neg]
      have hold : a.free[previous]? = some size := by
        rw [hsame.free] at hentry
        unfold hand_out at hentry
        grind
      exact h.coalesced previous size o l hold ho
    · rfl
  simp only [release, hstart, hlive, hprevious, hback, join_next_hand_out h ho hpos hkl hsame.free]

/-- A region that was handed out, filled and given back leaves the arena as it was. -/
theorem Restored.of_release {a₂ a₃ : ReceiveArena} {l : ℕ} (h : Wf a) (ho : a.free[o]? = some l)
    (hpos : 0 < k) (hkl : k ≤ l) (hconfined : Confined o k (a.hand_out o l k) a₂)
    (hrelease : a₂.release (a.mapping.client_address + o) = (.ok (), a₃)) : Restored a a₃ := by
  rw [release_hand_out h ho hpos hkl hconfined.toSameRegions] at hrelease
  have ha₃ := (Prod.mk.inj hrelease).2
  rw [← ha₃]
  refine ⟨⟨rfl, rfl, hconfined.client_address, hconfined.length⟩, fun _ _ ho' i _ _ => ?_⟩
  apply hconfined.pages
  have hapart := h.tiled.apart_mixed ho ho'
  omega

end Fill

end ReceiveArena

namespace OwnedTransaction

open ReceiveArena

variable {arena : ReceiveArena} {addresses : List ℕ}

/-- An owned allocation is dropped. -/
theorem drop_spec {allocation : Allocation}
    (h : Owns arena (allocation.buffer_address :: addresses)) :
    ∃ arena', drop arena allocation = some arena' ∧ Owns arena' addresses ∧
      arena'.mapping = arena.mapping := by
  obtain ⟨arena', hrelease, howns, hmapping⟩ := h.release
  refine ⟨arena', ?_, howns, hmapping⟩
  unfold drop
  rw [hrelease]

theorem drop_prepared_spec {address : ℕ} (h : Owns arena (address :: addresses)) :
    ∃ arena', PreparedTransaction.drop arena address = some arena' ∧ Owns arena' addresses ∧
      arena'.mapping = arena.mapping := by
  obtain ⟨arena', hrelease, howns, hmapping⟩ := h.release
  refine ⟨arena', ?_, howns, hmapping⟩
  unfold PreparedTransaction.drop
  rw [hrelease]

/-- A drop is a release that went well. -/
theorem release_of_drop {address : ℕ} {arena' : ReceiveArena}
    (h : PreparedTransaction.drop arena address = some arena') :
    arena.release address = (.ok (), arena') := by
  unfold PreparedTransaction.drop at h
  split at h
  · cases h
  · next a heq =>
    rw [heq, Option.some.inj h]

/-- **A preparation owns one new region, or none.** The arena never refuses to take a region
back. -/
theorem prepare_rewritten_spec (h : Owns arena addresses) (payload : TransactionPayload)
    (rewrites : List Rewrite) :
    ∃ result arena', prepare_rewritten arena payload rewrites = some (result, arena') ∧
      match result with
      | .error _ => Owns arena' addresses
      | .ok owned => owned = allocation payload owned.buffer_address ∧
        Owns arena' (owned.buffer_address :: addresses) := by
  unfold prepare_rewritten reserve_transaction
  rcases h.allocate payload.layout.total with ⟨e, heq⟩ | ⟨address, _, heq, howns, -⟩
  · rw [heq]
    exact ⟨_, _, rfl, h⟩
  rw [heq]
  dsimp only
  obtain ⟨o, k, ho, hat⟩ := (howns.mem address).mp List.mem_cons_self
  have hfill := fill_confined ho payload
  rw [← hat] at hfill
  split
  · next e a₂ heq₂ =>
    rw [heq₂] at hfill
    obtain ⟨a₃, hdrop, howns₃, -⟩ := drop_prepared_spec (howns.same hfill.toSameRegions)
    rw [hdrop]
    exact ⟨_, _, rfl, howns₃⟩
  next a₂ heq₂ =>
  rw [heq₂] at hfill
  have hrewrite := rewrite_all_confined (hfill.live ho) payload rewrites
  rw [hfill.client_address, ← hat] at hrewrite
  have hboth := hfill.trans hrewrite
  split
  · next e a₃ heq₃ =>
    rw [heq₃] at hboth
    obtain ⟨_, hdrop, howns₄, -⟩ := drop_prepared_spec (howns.same hboth.toSameRegions)
    rw [hdrop]
    exact ⟨_, _, rfl, howns₄⟩
  · next a₃ heq₃ =>
    rw [heq₃] at hboth
    exact ⟨_, _, rfl, rfl, howns.same hboth.toSameRegions⟩

/-- **A preparation that fails leaves the arena as it was**, and so does one whose result is
dropped. -/
theorem prepare_rewritten_restores (h : Owns arena addresses) {payload : TransactionPayload}
    {rewrites : List Rewrite} {result : Except Errno Allocation} {arena' : ReceiveArena}
    (hprepare : prepare_rewritten arena payload rewrites = some (result, arena')) :
    match result with
    | .error _ => Restored arena arena'
    | .ok owned => ∀ arena'', drop arena' owned = some arena'' → Restored arena arena'' := by
  unfold prepare_rewritten reserve_transaction at hprepare
  rcases allocate_cases arena payload.layout.total with ⟨-, heq⟩ | ⟨-, -, heq⟩ |
    ⟨-, o, l, hfit, heq⟩
  · rw [heq] at hprepare
    cases hprepare
    exact .refl arena
  · rw [heq] at hprepare
    cases hprepare
    exact .refl arena
  obtain ⟨ho, hfits, -⟩ := smallest_fit_spec hfit
  obtain ⟨-, hpos, -⟩ := roundUp_spec payload.layout.total
  have hlive : (arena.hand_out o l (roundUp payload.layout.total)).allocated[o]? =
      some (roundUp payload.layout.total) := getElem?_insert_self
  have hbase : (arena.hand_out o l (roundUp payload.layout.total)).mapping.client_address =
      arena.mapping.client_address := rfl
  rw [heq] at hprepare
  dsimp only at hprepare
  have hfill := fill_confined hlive payload
  rw [hbase] at hfill
  split at hprepare
  · next e a₂ heq₂ =>
    rw [heq₂] at hfill
    obtain ⟨a₃, hdrop, hresult⟩ := Option.map_eq_some_iff.mp hprepare
    cases hresult
    exact Restored.of_release h.wf ho hpos hfits hfill (release_of_drop hdrop)
  next a₂ heq₂ =>
  rw [heq₂] at hfill
  have hrewrite := rewrite_all_confined (hfill.live hlive) payload rewrites
  rw [hfill.client_address, hbase] at hrewrite
  split at hprepare
  · next e a₃ heq₃ =>
    rw [heq₃] at hrewrite
    obtain ⟨_, hdrop, hresult⟩ := Option.map_eq_some_iff.mp hprepare
    cases hresult
    exact Restored.of_release h.wf ho hpos hfits (hfill.trans hrewrite) (release_of_drop hdrop)
  · next a₃ heq₃ =>
    rw [heq₃] at hrewrite
    cases hprepare
    intro arena'' hdrop
    exact Restored.of_release h.wf ho hpos hfits (hfill.trans hrewrite) (release_of_drop hdrop)

end OwnedTransaction

end DarwinArt.Binder
