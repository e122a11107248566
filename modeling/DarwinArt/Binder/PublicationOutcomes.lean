/-
What a publication leaves behind.

A publication that ends in the queue, or is refused by it, happens as a whole or not at all
(`publish_settles`). `enqueue_translated_from` gets there only after it has found the receive
mapping, so this is all there is to it. The two deliveries of the routing authority install
their objects first and then look for the mapping; where they find none they return without
taking anything back. `publication_all_or_nothing_iff` says exactly when that matters: when
every object can be installed (`Installable`, read off the state before the call), and one of
them is a reference to another owner's node.
-/
import DarwinArt.Binder.Publication

set_option autoImplicit false

namespace DarwinArt.Binder.Publication

open Lib

open ReferenceTable

open Objects (Object ManifestObject Kind validate validate_manifest strength)

/-! ## The end of a publication -/

section Publish

variable {self : Connection} {session session₀ : Session} {heap heap₀ heap₁ : Heap}
  {memory : Memory}

/-- **An entry is enqueued, or queue and arena are as they were.** -/
theorem enqueue_routed_spec {q : ReceiveQueue} (h : q.Inv) (payload : TransactionPayload)
    (header : Header) (rewrites : List Rewrite) (route : Route) (memory : Bool) :
    ∃ result q', q.enqueue_routed payload header rewrites route memory =
        some (.Enqueued result, q') ∧
      match result with
      | .error _ => q'.queue = q.queue ∧ q.arena.Restored q'.arena
      | .ok address => ∃ entry, q'.queue = { q.queue with pending := q.queue.pending ++ [entry] } ∧
        entry.allocation.buffer_address = address := by
  obtain ⟨prepared, _, hprepare, howns⟩ :=
    OwnedTransaction.prepare_rewritten_spec h.owns payload rewrites
  have hrestores := OwnedTransaction.prepare_rewritten_restores h.owns hprepare
  unfold ReceiveQueue.enqueue_routed
  rw [hprepare]
  cases prepared with
  | error => exact ⟨_, _, rfl, rfl, hrestores⟩
  | ok =>
    dsimp only
    by_cases hmemory : memory = true
    · rw [if_neg (not_not.mpr hmemory)]
      exact ⟨_, _, rfl, _, rfl, rfl⟩
    · obtain ⟨arena'', hdrop, -, -⟩ := OwnedTransaction.drop_spec howns.2
      rw [if_pos hmemory, hdrop]
      exact ⟨_, _, rfl, rfl, hrestores arena'' hdrop⟩

theorem sameQueue_refl (q : Option ReceiveQueue) : SameQueue q q := by
  cases q with
  | none => trivial
  | some => exact ⟨rfl, .refl _⟩

/-- A call that has only looked at things. -/
theorem Kept.of_tables (self : Connection) (h : ∀ node, tables heap₁ node = tables heap node) :
    Kept self heap self heap₁ :=
  ⟨rfl, h, sameQueue_refl _⟩

/-- **The end of all three settles what was installed.** -/
theorem publish_settles {queue : ReceiveQueue} {transferred : List (Target × Strength)}
    {rollbacks : List Rollback} (hwf : self.Wf) (hsession : self.session = some session₀)
    (hqueue : self.transactions = some queue)
    (htables : ∀ node, tables heap₀ node = tables heap node)
    (h : Installed session₀ heap₀ transferred session heap₁ rollbacks)
    (payload : TransactionPayload) (header : Header) (rewrites : List Rewrite) (route : Route) :
    ∃ outcome, self.publish session queue heap₁ payload header rewrites rollbacks route memory =
      some outcome ∧ Settles transferred self heap outcome := by
  obtain ⟨result, queue', henqueue, hresult⟩ :=
    enqueue_routed_spec (hwf.queue queue hqueue) payload header rewrites route memory.pending
  unfold Connection.publish
  rw [henqueue]
  cases result with
  | ok =>
    obtain ⟨entry, hqueue', haddress⟩ := hresult
    exact ⟨_, rfl, ⟨session₀, session, hsession, rfl, h.owner, h.held⟩,
      queue, queue', entry, hqueue, rfl, hqueue', haddress⟩
  | error =>
    obtain ⟨_, hback, hnodes⟩ := h.revocable heap₁ rfl
    rw [hback]
    refine ⟨_, rfl, hsession.symm, fun _ => ?_, ?_⟩
    · rw [tables_of_nodes hnodes, htables]
    · rwa [hqueue]

/-- **The sender's own objects are published as a whole or not at all**: the mapping is looked
for before anything is installed. -/
theorem enqueue_translated_from_settles (hwf : self.Wf) (heap : Heap) (sender : Connection)
    (snapshot : TransactionPayload) (header : Header) (route : Route) (memory : Memory) :
    AllOrNothing self heap memory (.translated sender snapshot header route) := by
  have hkept : ∀ (e : Error) heap', (∀ node, tables heap' node = tables heap node) →
      ∃ outcome, some ((.error e : Except Error ℕ), self, heap') = some outcome ∧
        Settles (Call.transferred self (.translated sender snapshot header route)) self heap
          outcome := by
    intro e heap' htables
    exact ⟨_, rfl, .of_tables self htables⟩
  unfold AllOrNothing
  show ∃ outcome, self.enqueue_translated_from heap sender snapshot header route memory = _ ∧ _
  unfold Connection.enqueue_translated_from
  split
  · exact hkept _ heap fun _ => rfl
  split
  · exact hkept _ heap fun _ => rfl
  next objects hobjects =>
  split
  · exact hkept _ heap fun _ => rfl
  split
  · exact hkept _ heap fun _ => rfl
  split
  · exact hkept _ heap fun _ => rfl
  next sender_session hsender =>
  obtain ⟨result, heap₁, hresolve, htables, hnodes⟩ :=
    resolve_objects_spec sender_session memory.nodes objects 0 heap
  rw [hresolve]
  cases result with
  | error => exact hkept _ heap₁ htables
  | ok resolved =>
    dsimp only
    cases hsession : self.session with
    | none => exact hkept _ heap₁ htables
    | some session =>
      dsimp only
      split
      · exact hkept _ heap₁ htables
      split
      · exact hkept _ heap₁ htables
      cases hqueue : self.transactions with
      | none => exact hkept _ heap₁ htables
      | some =>
        dsimp only
        have hloop := install_objects_spec
          (fun session heap object howner => by
            have hone := install_transaction_object_spec session heap object
            rw [howner] at hone
            exact hone) .ObjectTransfer rfl resolved [] (.nil heap₁ (hwf.references session hsession))
        have htransferred : resolved.filterMap
            (fun object => local_reference session.owner (object.node, object.strength)) =
            Call.transferred self (.translated sender snapshot header route) := by
          unfold Call.transferred
          dsimp only
          rw [hsession, hsender, hobjects]
          dsimp only
          rw [hnodes resolved rfl, List.filterMap_map]
          rfl
        split
        · next e session' heap' heq =>
          rw [heq] at hloop
          obtain ⟨hback, hback'⟩ := hloop
          refine ⟨_, rfl, ?_, fun node => ?_, ?_⟩
          · rw [hback, hsession]
          · rw [tables_of_nodes hback', htables]
          · rw [hqueue]
            exact sameQueue_refl _
        · next rewrites rollbacks session' heap' heq =>
          rw [heq] at hloop
          dsimp only at hloop
          rw [List.nil_append, htransferred] at hloop
          exact publish_settles hwf hsession hqueue htables hloop _ _ _ _

end Publish

/-! ## Which references can be retained -/

section Retain

variable {table table' : ReferenceTable} {heap heap' : Heap} {keys : List ℕ} {handle : ℕ}

/-- The handles that `retain` may still give. -/
def free_handles (table : ReferenceTable) : Finset ℕ :=
  (Finset.Ico 1 (2 ^ 32)).filter fun handle => (table.entries[handle]?).isNone

/-- The targets among these that the table does not hold yet. -/
def new_targets (table : ReferenceTable) (transferred : List (Target × Strength)) :
    Finset Target :=
  (transferred.map Prod.fst).toFinset.filter fun target => table.held target = Counts.zero

/-- Every reference fits its count, and every new target finds a handle. -/
structure Retainable (table : ReferenceTable) (transferred : List (Target × Strength)) : Prop where
  countable : ∀ reference ∈ transferred,
    (table.held reference.1).count reference.2 + transferred.count reference ≤ i32_max
  handles : (new_targets table transferred).card ≤ (free_handles table).card

/-- Every entry of the manifest can be installed: what the receiver owns is known to it, and
what it does not own can be retained. -/
@[mk_iff]
structure Installable (receiver : ConnectionToken) (session : Session) (heap : Heap)
    (manifest : List ManifestObject) : Prop where
  known : ∀ object ∈ manifest, object.node.owner = receiver →
    ((heap.owner session.owner).nodes_by_local[object.node.localNode]?).isSome = true
  retainable : Retainable session.references (manifest.filterMap (remote_reference receiver))

theorem free_handle_lt {start handle : ℕ} (hstart : start < 2 ^ 32)
    (h : ReferenceTable.free_handle start keys = some handle) : handle < 2 ^ 32 := by
  induction keys generalizing start with
  | nil =>
    cases h
    exact hstart
  | cons _ _ ih =>
    unfold free_handle at h
    split at h
    · exact ih hstart h
    split at h
    · cases h
      exact hstart
    split at h
    · cases h
    · next next hnext => exact ih (by have := checked_add_eq_some.mp hnext; omega) h

/-- The search fails only where every handle is taken. -/
theorem free_handle_eq_none {start : ℕ}
    (hsorted : keys.Pairwise (fun a b => a < b)) (hstart : start < 2 ^ 32)
    (h : ReferenceTable.free_handle start keys = none) (x : ℕ) (hle : start ≤ x)
    (hlt : x < 2 ^ 32) : x ∈ keys := by
  induction keys generalizing start with
  | nil => cases h
  | cons occupied _ ih =>
    obtain ⟨-, hrest⟩ := List.pairwise_cons.mp hsorted
    unfold free_handle at h
    split at h
    · exact List.mem_cons_of_mem _ (ih hrest hstart h hle)
    split at h
    · cases h
    have hoccupied : start = occupied := by omega
    by_cases hx : x = occupied
    · rw [hx]
      exact List.mem_cons_self
    split at h
    · next hnone =>
      have := checked_add_eq_none.mp hnone
      omega
    · next next hnext =>
      obtain ⟨_, hnext⟩ := checked_add_eq_some.mp hnext
      exact List.mem_cons_of_mem _ (ih hrest (by omega) h (by omega))

variable {target : Target} {before : Counts}

variable {strength : Strength} {after : Counts}

section

variable (h : table.Wf)
include h

/-- The handle of a retained reference: the one of its target, or a free one. -/
theorem retain_from_handle
    (hretain : table.retain_from heap target strength 1 =
      (.ok (handle, before, after), table', heap')) :
    (table.held target ≠ Counts.zero ∧ (table.entries[handle]?).isSome = true) ∨
      (table.held target = Counts.zero ∧ handle ∈ free_handles table) := by
  obtain ⟨hfind | ⟨hfind, -, hfree⟩, -⟩ := retain_from_ok hretain
  · obtain ⟨hentry, -⟩ := find_eq_some hfind
    left
    rw [held_of_entry h hentry, hentry]
    exact ⟨h.nonzero _ _ hentry, rfl⟩
  · right
    refine ⟨held_of_none (find_eq_none hfind), ?_⟩
    obtain ⟨hle, hnot, -⟩ :=
      free_handle_least (keys_sorted table) hfree
    unfold free_handles
    rw [Finset.mem_filter, Finset.mem_Ico, not_mem_keys.mp hnot]
    exact ⟨⟨hle, free_handle_lt (by decide) hfree⟩, rfl⟩

/-- **A reference to a remote node can be retained** where its count has room, and a handle is
left if its target is new. -/
theorem retain_remote_ok_iff (heap : Heap) (node : NodeToken) (strength : Strength) :
    (∃ handle before after table', table.retain_from heap (.Remote node) strength 1 =
        (.ok (handle, before, after), table', heap)) ↔
      (table.held (.Remote node)).count strength < i32_max ∧
        (table.held (.Remote node) = Counts.zero → (free_handles table).Nonempty) := by
  constructor
  · rintro ⟨handle, _, _, _, hretain⟩
    obtain ⟨hbefore, hlt, -⟩ := retain_from_eq_ok h hretain
    rw [hbefore] at hlt
    refine ⟨hlt, fun hzero => ?_⟩
    rcases retain_from_handle h hretain with ⟨hne, -⟩ | ⟨-, hfree⟩
    · exact absurd hzero hne
    · exact ⟨handle, hfree⟩
  · rintro ⟨hlt, hfree⟩
    unfold retain_from
    cases hfind : table.find (.Remote node) with
    | some entry =>
      obtain ⟨handle, reference⟩ := entry
      obtain ⟨hentry, htarget⟩ := find_eq_some hfind
      rw [← htarget, held_of_entry h hentry] at hlt
      have hcount : bounded_succ (reference.counts.count strength) =
          some (reference.counts.count strength + 1) := bounded_succ_eq_some.mpr ⟨rfl, hlt⟩
      have htarget : reference.target = .Remote node := htarget
      dsimp only
      unfold ReferenceTable.increment update_target
      rw [hentry]
      dsimp only
      rw [hcount, htarget]
      exact ⟨_, _, _, _, rfl⟩
    | none =>
      obtain ⟨x, hx⟩ := hfree (held_of_none (find_eq_none hfind))
      dsimp only
      cases hhandle : free_handle 1 table.entries.keys with
      | some => exact ⟨_, _, _, _, rfl⟩
      | none =>
        unfold free_handles at hx
        rw [Finset.mem_filter, Finset.mem_Ico, Option.isNone_iff_eq_none] at hx
        have hmem := free_handle_eq_none (keys_sorted table) (by decide) hhandle x
          hx.1.1 hx.1.2
        exact absurd hmem (not_mem_keys.mpr hx.2)

section

variable (hretain : table.retain_from heap target strength 1 =
  (.ok (handle, before, after), table', heap'))
include hretain

/-- A retained reference takes a handle if its target is new. -/
theorem card_free_handles : (free_handles table).card =
      (free_handles table').card + if table.held target = Counts.zero then 1 else 0 := by
  obtain ⟨-, -, -, htable', -⟩ := retain_from_eq_ok h hretain
  have hentries : ∀ x : ℕ, (table'.entries[x]?).isNone =
      (decide (x ≠ handle) && (table.entries[x]?).isNone) := by
    intro x
    rw [htable']
    by_cases hx : handle = x
    · simp [hx]
    · rw [getElem?_insert_ne hx]
      simp [Ne.symm hx]
  rcases retain_from_handle h hretain with ⟨hne, hsome⟩ | ⟨hzero, hfree⟩
  · rw [if_neg hne, Nat.add_zero]
    congr 1
    apply Finset.filter_congr
    intro x _
    rw [hentries]
    by_cases hx : x = handle
    · rw [hx]
      simpa using hsome
    · simp [hx]
  · rw [if_pos hzero]
    have herase : free_handles table' = (free_handles table).erase handle := by
      ext x
      unfold free_handles
      rw [Finset.mem_erase, Finset.mem_filter, Finset.mem_filter, hentries]
      simp only [Bool.and_eq_true, decide_eq_true_eq]
      tauto
    rw [herase, Finset.card_erase_of_mem hfree]
    have := Finset.card_pos.mpr ⟨handle, hfree⟩
    omega

/-- What the table holds of another target. -/
theorem held_other {other : Target} (hne : other ≠ target) :
    table'.held other = table.held other := by
  have hcount : ∀ s, (table'.held other).count s = (table.held other).count s := by
    intro s
    rw [retain_from_held h hretain, if_neg, Nat.add_zero]
    intro heq
    exact hne (Prod.mk.inj heq).1.symm
  exact Counts.ext (hcount .Strong) (hcount .Weak)

/-- A retained reference makes its target an old one. -/
theorem new_targets_retained (transferred : List (Target × Strength)) :
    new_targets table' transferred = (new_targets table transferred).erase target := by
  ext other
  unfold new_targets
  rw [Finset.mem_erase, Finset.mem_filter, Finset.mem_filter]
  by_cases hother : other = target
  · have hheld : table'.held target ≠ Counts.zero := by
      apply ne_zero_of_count_pos strength
      rw [retain_from_held h hretain, if_pos rfl]
      omega
    rw [hother]
    simp [hheld]
  · rw [held_other h hretain hother]
    simp [hother]

/-- **One reference after another.** -/
theorem Retainable.cons_iff (transferred : List (Target × Strength)) :
    Retainable table ((target, strength) :: transferred) ↔ Retainable table' transferred := by
  obtain ⟨hbefore, hlt, -⟩ := retain_from_eq_ok h hretain
  rw [hbefore] at hlt
  have hheld := retain_from_held h hretain
  have hcard := card_free_handles h hretain
  have hnew := new_targets_retained h hretain transferred
  -- how much each reference asks of its count does not change
  have hcount : ∀ reference : Target × Strength,
      (table'.held reference.1).count reference.2 + transferred.count reference =
        (table.held reference.1).count reference.2 +
          ((target, strength) :: transferred).count reference := by
    rintro ⟨other, s⟩
    rw [hheld, List.count_cons]
    simp only [beq_iff_eq]
    omega
  have hfirst : (new_targets table ((target, strength) :: transferred)).card =
      (new_targets table' transferred).card + if table.held target = Counts.zero then 1 else 0 := by
    rw [hnew]
    unfold new_targets
    rw [List.map_cons, List.toFinset_cons, Finset.filter_insert]
    by_cases hzero : table.held target = Counts.zero
    · rw [if_pos hzero, if_pos hzero, ← Finset.card_insert_of_notMem (Finset.notMem_erase _ _)]
      congr 1
      ext other
      rw [Finset.mem_insert, Finset.mem_insert, Finset.mem_erase]
      tauto
    · rw [if_neg hzero, if_neg hzero, Finset.erase_eq_of_notMem, Nat.add_zero]
      rw [Finset.mem_filter]
      exact fun hmem => hzero hmem.2
  constructor
  · intro hall
    refine ⟨fun reference hmem => ?_, ?_⟩
    · rw [hcount]
      exact hall.countable reference (List.mem_cons_of_mem _ hmem)
    · have := hall.handles
      omega
  · intro hall
    refine ⟨fun reference hmem => ?_, ?_⟩
    · rw [← hcount]
      by_cases hin : reference ∈ transferred
      · exact hall.countable reference hin
      · have hreference : reference = (target, strength) := by
          rcases List.mem_cons.mp hmem with heq | hmem
          · exact heq
          · exact absurd hmem hin
        rwa [List.count_eq_zero_of_not_mem hin, hreference, hheld, if_pos rfl]
    · have := hall.handles
      omega

end

end

/-- **The objects of a manifest are all installed exactly where they can be.** -/
theorem install_remote_ok_iff (receiver : ConnectionToken) (fail : RemoteError → Error)
    (manifest : List ManifestObject) {session : Session} (h : session.references.Wf)
    (heap : Heap) (rewrites : List Rewrite) (rollbacks : List Rollback) :
    (∃ installed, (install_objects (install_remote_object receiver) fail session heap rewrites
        rollbacks manifest).1 = .ok installed) ↔
      Installable receiver session heap manifest := by
  induction manifest generalizing session rewrites rollbacks with
  | nil =>
    refine ⟨fun _ => ⟨by simp, by simp, ?_⟩, fun _ => ⟨_, rfl⟩⟩
    unfold new_targets
    simp
  | cons object manifest ih =>
    have hrefused : ∀ (e : RemoteError) session' heap',
        install_remote_object receiver session heap object = (.error e, session', heap') →
        ¬ ∃ installed, (install_objects (install_remote_object receiver) fail session heap rewrites
          rollbacks (object :: manifest)).1 = .ok installed := by
      rintro e session' heap' hinstall ⟨installed, hok⟩
      simp only [install_objects, hinstall] at hok
      split at hok <;> cases hok
    by_cases hown : object.node.owner = receiver
    · -- an object of the receiver's own
      have hreference : remote_reference receiver object = none := if_pos hown
      have hcons : Installable receiver session heap (object :: manifest) ↔
          ((heap.owner session.owner).nodes_by_local[object.node.localNode]?).isSome = true ∧
            Installable receiver session heap manifest := by
        rw [installable_iff, installable_iff, List.forall_mem_cons, List.filterMap_cons, hreference]
        simp only [hown, true_implies, and_assoc]
      rw [hcons]
      cases hlookup : (heap.owner session.owner).nodes_by_local[object.node.localNode]? with
      | none =>
        have hinstall : install_remote_object receiver session heap object =
            (.error (.ReceiverNode .UnknownNode), session, heap) := by
          unfold install_remote_object Heap.lookup_local
          rw [if_pos hown, hlookup]
        refine iff_of_false (hrefused _ _ _ hinstall) ?_
        simp
      | some =>
        obtain ⟨rewrite, hinstall⟩ : ∃ rewrite, install_remote_object receiver session heap object =
            (.ok (rewrite, none), session, heap) := by
          unfold install_remote_object Heap.lookup_local
          rw [if_pos hown, hlookup]
          exact ⟨_, rfl⟩
        simp only [install_objects, hinstall, ih h]
        simp
    · -- an object of another owner
      have hreference : remote_reference receiver object = some (.Remote object.node, object.strength) :=
        if_neg hown
      by_cases hretains : ∃ handle before after table', session.references.retain_from heap
          (.Remote object.node) object.strength 1 = (.ok (handle, before, after), table', heap)
      · obtain ⟨handle, before, after, table', hretain⟩ := hretains
        have hwf := h.retain_from heap (.Remote object.node) object.strength 1
        rw [hretain] at hwf
        obtain ⟨rewrite, rollback, hinstall⟩ : ∃ rewrite rollback,
            install_remote_object receiver session heap object =
              (.ok (rewrite, rollback), ⟨session.owner, table'⟩, heap) := by
          unfold install_remote_object retain_remote
          rw [if_neg hown, hretain]
          exact ⟨_, _, rfl⟩
        unfold install_objects
        rw [hinstall]
        dsimp only
        rw [ih (show (⟨session.owner, table'⟩ : Session).references.Wf from hwf), installable_iff,
          installable_iff, List.forall_mem_cons, List.filterMap_cons, hreference,
          Retainable.cons_iff h hretain]
        simp only [hown, false_implies, true_and]
      · have hinstall : ∃ e session' heap', install_remote_object receiver session heap object =
            (.error e, session', heap') := by
          unfold install_remote_object retain_remote
          rw [if_neg hown]
          split
          · exact ⟨_, _, _, rfl⟩
          · next handle before after table' heap' heq =>
            obtain ⟨-, -, -, -, hupdate⟩ := retain_from_eq_ok h heq
            have hheap : heap = heap' := Option.some.inj hupdate
            rw [← hheap] at heq
            exact absurd ⟨_, _, _, _, heq⟩ hretains
        obtain ⟨e, session', heap', hinstall⟩ := hinstall
        refine iff_of_false (hrefused _ _ _ hinstall) fun hall => hretains ?_
        rw [retain_remote_ok_iff h]
        have hretainable := hall.retainable
        rw [List.filterMap_cons, hreference] at hretainable
        dsimp only at hretainable
        constructor
        · have hcount := hretainable.countable _ List.mem_cons_self
          rw [List.count_cons_self] at hcount
          dsimp only at hcount
          omega
        · intro hzero
          apply Finset.card_pos.mp
          refine lt_of_lt_of_le (Finset.card_pos.mpr ?_) hretainable.handles
          refine ⟨.Remote object.node, ?_⟩
          unfold new_targets
          rw [Finset.mem_filter]
          exact ⟨by simp, hzero⟩

end Retain

/-! ## When a publication is all or nothing -/

section Strands

variable {self : Connection} {session : Session}

/-- **A delivery that passes its checks into a connection without a receive mapping**: every
object is installed, one of them retains a reference, and nothing takes it back. -/
structure Strands (c : Connection) (session : Session) (heap : Heap) (memory : Memory)
    (payload : Image) (receiver : ConnectionToken) : Prop where
  open_session : c.session = some session
  unmapped : c.transactions = none
  deliverable : Connection.check_delivery payload = .ok ()
  memory : memory.files = true ∧ memory.rewrites = true ∧ memory.rollbacks = true
  installable : Installable receiver session heap payload.objects_manifest
  foreign : ∃ object ∈ payload.objects_manifest, object.node.owner ≠ receiver

/-- The calls that leave references behind. -/
def Call.Strands (self : Connection) (heap : Heap) (memory : Memory) : Call → Prop
  | .translated _ _ _ _ => False
  | .remote_transaction payload receiver remote _ => ∃ session,
    Publication.Strands self session heap memory payload receiver ∧
      ((heap.owner session.owner).nodes_by_local[remote.target]?).isSome = true
  | .remote_reply payload receiver _ _ => ∃ session,
    Publication.Strands self session heap memory payload receiver

theorem foreign_iff (receiver : ConnectionToken) (manifest : List ManifestObject) :
    (∃ object ∈ manifest, object.node.owner ≠ receiver) ↔
      manifest.filterMap (remote_reference receiver) ≠ [] := by
  rw [ne_eq, List.filterMap_eq_nil_iff]
  push Not
  unfold remote_reference
  constructor
  · rintro ⟨object, hmem, hne⟩
    exact ⟨object, hmem, by rw [if_neg hne]; exact Option.some_ne_none _⟩
  · rintro ⟨object, hmem, hsome⟩
    refine ⟨object, hmem, fun heq => hsome ?_⟩
    rw [if_pos heq]

/-- Without a mapping, what was installed is kept where anything was. -/
theorem unmapped_settles_iff {heap heap' : Heap} {session' : Session}
    {transferred : List (Target × Strength)} {rollbacks : List Rollback}
    (hsession : self.session = some session)
    (h : Installed session heap transferred session' heap' rollbacks) (e : Error) :
    Settles transferred self heap (.error e, { self with session := some session' }, heap') ↔
      transferred = [] := by
  constructor
  · intro hkept
    have hsame : session' = session := by
      have hsame := hkept.session
      rw [hsession] at hsame
      exact Option.some.inj hsame
    rw [List.eq_nil_iff_forall_not_mem]
    rintro ⟨target, strength⟩ hmem
    have hheld := h.held target strength
    have hpos := List.count_pos_iff.mpr hmem
    rw [hsame] at hheld
    omega
  · intro hnil
    rw [hnil] at h
    obtain ⟨hsame, hnodes⟩ := h.none
    refine ⟨?_, fun node => tables_of_nodes hnodes node, sameQueue_refl _⟩
    rw [hsame, hsession]

/-- **What the two deliveries share**, from the first container on. -/
theorem enqueue_remote_settles_iff (hwf : self.Wf) (hsession : self.session = some session)
    (heap : Heap) (memory : Memory) (payload : Image) (receiver : ConnectionToken)
    (hdeliverable : Connection.check_delivery payload = .ok ()) (header : Header) (route : Route)
    (files : List Rewrite) :
    (∃ outcome, self.enqueue_remote session heap payload receiver header route files memory =
        some outcome ∧
      Settles (payload.objects_manifest.filterMap (remote_reference receiver)) self heap outcome) ↔
      ¬ Strands self session heap memory payload receiver := by
  have hrefs := hwf.references session hsession
  have hloop := install_objects_spec
    (fun session heap object (_ : session.owner = _) =>
      install_remote_object_spec receiver session heap object)
    (fun e => .ObjectTransfer (.Remote e)) rfl payload.objects_manifest files (.nil heap hrefs)
  have hok := install_remote_ok_iff receiver (fun e => .ObjectTransfer (.Remote e))
    payload.objects_manifest hrefs heap files []
  have hnothing : ∀ (e : Error), ∃ outcome, some ((.error e : Except Error ℕ), self, heap) =
      some outcome ∧ Settles (payload.objects_manifest.filterMap (remote_reference receiver)) self
        heap outcome := fun e => ⟨_, rfl, .of_tables self fun _ => rfl⟩
  unfold Connection.enqueue_remote
  by_cases hfiles : memory.files = true
  case neg =>
    rw [if_pos hfiles]
    exact iff_of_true (hnothing _) fun hstrands => hfiles hstrands.memory.1
  by_cases hrewrites : memory.rewrites = true
  case neg =>
    rw [if_neg (not_not.mpr hfiles), if_pos hrewrites]
    exact iff_of_true (hnothing _) fun hstrands => hrewrites hstrands.memory.2.1
  by_cases hrollbacks : memory.rollbacks = true
  case neg =>
    rw [if_neg (not_not.mpr hfiles), if_neg (not_not.mpr hrewrites), if_pos hrollbacks]
    exact iff_of_true (hnothing _) fun hstrands => hrollbacks hstrands.memory.2.2
  rw [if_neg (not_not.mpr hfiles), if_neg (not_not.mpr hrewrites), if_neg (not_not.mpr hrollbacks)]
  split
  · next e session' heap' heq =>
    -- an object was refused
    rw [heq] at hloop hok
    obtain ⟨hback, hnodes⟩ := hloop
    refine iff_of_true ⟨_, rfl, ?_, fun node => tables_of_nodes hnodes node, sameQueue_refl _⟩ ?_
    · rw [hback, hsession]
    · intro hstrands
      obtain ⟨_, hinstalled⟩ := hok.mpr hstrands.installable
      cases hinstalled
  next rewrites rollbacks session' heap' heq =>
  rw [heq] at hloop hok
  rw [List.nil_append] at hloop
  cases hqueue : self.transactions with
  | some =>
    refine iff_of_true (publish_settles hwf hsession hqueue (fun _ => rfl) hloop _ _ _ _) ?_
    intro hstrands
    rw [hstrands.unmapped] at hqueue
    cases hqueue
  | none =>
    have hsettles := unmapped_settles_iff hsession hloop .MappingNotInstalled
    rw [hqueue] at hsettles
    constructor
    · rintro ⟨outcome, heq, houtcome⟩ hstrands
      rw [← Option.some.inj heq, hsettles] at houtcome
      exact (foreign_iff receiver _).mp hstrands.foreign houtcome
    · intro hnot
      refine ⟨_, rfl, hsettles.mpr ?_⟩
      by_contra hforeign
      exact hnot ⟨hsession, hqueue, hdeliverable, ⟨hfiles, hrewrites, hrollbacks⟩,
        hok.mp ⟨_, rfl⟩, (foreign_iff receiver _).mpr hforeign⟩

/-- **A publication is all or nothing, but for the calls that strand references.** Whatever is
in the receiver's table, arena and queue, whatever objects the payload has, and wherever the
allocator fails, the call returns; with an error everything is as it was, and with an address
one entry is in the queue and each object of another owner has added one reference of its
strength. -/
theorem publication_all_or_nothing_iff (self : Connection) (hwf : self.Wf) (heap : Heap)
    (memory : Memory) (call : Call) :
    AllOrNothing self heap memory call ↔ ¬ call.Strands self heap memory := by
  have hnothing : ∀ (e : Error) transferred, ∃ outcome,
      some ((.error e : Except Error ℕ), self, heap) = some outcome ∧
        Settles transferred self heap outcome :=
    fun e transferred => ⟨_, rfl, .of_tables self fun _ => rfl⟩
  cases call with
  | translated sender snapshot header route =>
    exact iff_of_true (enqueue_translated_from_settles hwf heap sender snapshot header route memory)
      id
  | remote_transaction payload receiver remote files =>
    unfold AllOrNothing Connection.perform Connection.enqueue_remote_transaction
    dsimp only
    split
    · next e hcheck =>
      refine iff_of_true (hnothing _ _) ?_
      rintro ⟨session, hstrands, -⟩
      rw [hstrands.deliverable] at hcheck
      cases hcheck
    next hcheck =>
    split
    · next hclosed =>
      refine iff_of_true (hnothing _ _) ?_
      rintro ⟨session, hstrands, -⟩
      rw [hstrands.open_session] at hclosed
      cases hclosed
    next session hsession =>
    -- the session that strands is this one
    have hone : Call.Strands self heap memory (.remote_transaction payload receiver remote files) ↔
        Strands self session heap memory payload receiver ∧
          ((heap.owner session.owner).nodes_by_local[remote.target]?).isSome = true := by
      constructor
      · rintro ⟨session', hstrands, htarget⟩
        have hsame := hstrands.open_session
        rw [hsession] at hsame
        rw [Option.some.inj hsame]
        exact ⟨hstrands, htarget⟩
      · exact fun hstrands => ⟨session, hstrands⟩
    rw [hone]
    unfold Heap.lookup_local
    cases htarget : (heap.owner session.owner).nodes_by_local[remote.target]? with
    | none => exact iff_of_true (hnothing _ _) fun hstrands => nomatch hstrands.2
    | some =>
      dsimp only
      refine (enqueue_remote_settles_iff hwf hsession heap memory payload receiver hcheck _ _
        files).trans ?_
      simp
  | remote_reply payload receiver remote files =>
    unfold AllOrNothing Connection.perform Connection.enqueue_remote_reply
    dsimp only
    split
    · next e hcheck =>
      refine iff_of_true (hnothing _ _) ?_
      rintro ⟨session, hstrands⟩
      rw [hstrands.deliverable] at hcheck
      cases hcheck
    next hcheck =>
    split
    · next hclosed =>
      refine iff_of_true (hnothing _ _) ?_
      rintro ⟨session, hstrands⟩
      rw [hstrands.open_session] at hclosed
      cases hclosed
    next session hsession =>
    have hone : Call.Strands self heap memory (.remote_reply payload receiver remote files) ↔
        Strands self session heap memory payload receiver := by
      constructor
      · rintro ⟨session', hstrands⟩
        have hsame := hstrands.open_session
        rw [hsession] at hsame
        rwa [Option.some.inj hsame]
      · exact fun hstrands => ⟨session, hstrands⟩
    rw [hone]
    exact enqueue_remote_settles_iff hwf hsession heap memory payload receiver hcheck _ _ files

end Strands

/-! ## A receiver without a mapping -/

/-- One strong reference to node 1 of connection 7. -/
def one_reference : Image where
  sections := ⟨toLe 4 Kind.Handle.tag ++ toLe 4 0 ++ toLe 4 5 ++ toLe 12 0, toLe 8 0, 0, _, rfl⟩
  objects_manifest :=
    [⟨0, ⟨⟨7, by decide, by decide⟩, ⟨1, Nat.one_ne_zero, Token.one_fits⟩⟩, .Strong, 0⟩]
  described := ⟨_, rfl, rfl⟩

/-- A connection that has opened the device and not mapped it. -/
def unmapped_connection : Connection := ⟨0, some ⟨0, ReferenceTable.new⟩, none⟩

/-- The allocator refuses nothing. -/
def enough_memory : Memory := ⟨true, fun _ => ⟨true, true⟩, true, true, true, true⟩

/-- The reply to call 4 of thread 11, with one reference, to connection 3. -/
def reply_with_reference : Call :=
  .remote_reply one_reference ⟨3, by decide, by decide⟩
    ⟨⟨4, by decide, by decide⟩, 0, 0, 11, 0, 0⟩ []

/-- **The reply is refused, and its reference stays in the table.** -/
theorem refused_reply_leaves_reference :
    unmapped_connection.Wf ∧
      (unmapped_connection.perform ⟨[OwnerState.new], ∅⟩ enough_memory reply_with_reference).map
          (fun outcome => (outcome.1, outcome.2.1.session.map fun session =>
            session.references.entries.toList)) =
        some (.error .MappingNotInstalled, some
          [(1, ⟨.Remote ⟨⟨7, by decide, by decide⟩, ⟨1, by decide, by decide⟩⟩, ⟨1, 0⟩⟩)]) ∧
      ¬ AllOrNothing unmapped_connection ⟨[OwnerState.new], ∅⟩ enough_memory
        reply_with_reference := by
  have hperform : (unmapped_connection.perform ⟨[OwnerState.new], ∅⟩ enough_memory
      reply_with_reference).map (fun outcome => (outcome.1, outcome.2.1.session.map fun session =>
        session.references.entries.toList)) =
        some (.error .MappingNotInstalled, some
          [(1, ⟨.Remote ⟨⟨7, by decide, by decide⟩, ⟨1, by decide, by decide⟩⟩, ⟨1, 0⟩⟩)]) := by
    decide +kernel
  refine ⟨⟨?_, ?_⟩, hperform, ?_⟩
  · intro session hsession
    cases hsession
    exact wf_new
  · intro q hq
    cases hq
  · rintro ⟨⟨result, self', _⟩, houtcome, hsettles⟩
    rw [houtcome] at hperform
    obtain ⟨hresult, hentries⟩ := Prod.mk.inj (Option.some.inj hperform)
    have hresult : result = .error .MappingNotInstalled := hresult
    rw [hresult] at hsettles
    have hsession : self'.session = unmapped_connection.session := hsettles.session
    rw [hsession] at hentries
    exact absurd hentries (by decide)

/-- Where the device is mapped, the same reply is published as a whole. -/
theorem mapped_receiver_takes_reference : ∃ q, ReceiveQueue.new 64 (.ok ⟨4096, by norm_num⟩) = .ok q ∧
    AllOrNothing { unmapped_connection with transactions := some q } ⟨[OwnerState.new], ∅⟩
      enough_memory reply_with_reference := by
  obtain ⟨q, hq⟩ : ∃ q, ReceiveQueue.new 64 (.ok ⟨4096, by norm_num⟩) = .ok q := ⟨_, rfl⟩
  refine ⟨q, hq, (publication_all_or_nothing_iff _ ⟨?_, ?_⟩ _ _ _).mpr ?_⟩
  · intro session hsession
    cases hsession
    exact wf_new
  · intro q' hq'
    cases hq'
    exact (ReceiveQueue.fits_new hq).2
  · rintro ⟨session, hstrands⟩
    exact nomatch hstrands.unmapped

end DarwinArt.Binder.Publication
