/-
How a thread ends what it has begun through the authority: the calls it waits for when the authority
is gone, and the reply it has begun and cannot send.

Both are asked of every state a thread can come to, by operations that may fail. So the runs here go
on after an error, where `ThreadStack` stops, and what is kept along them is less: the frame and the
slots of each call, and that the slots of replies are numbered.
-/
import DarwinArt.Binder.ThreadFrame

set_option autoImplicit false

namespace DarwinArt.Binder.Thread

open Lib Lib.ListEdit

/-- A step of a run in which operations may fail. -/
def Attempt (s : Thread) (op : Op) (t : Thread) : Prop :=
  Legal s op ∧ (s.perform op).2 = t

/-- The states that a thread comes to. -/
def Reached (s : Thread) : Prop :=
  ∃ id s₀ ops, new id = some s₀ ∧ Run Attempt s₀ ops s

/-- The slots of a reply. -/
def reply_slots (r : RemoteReplySubmission) (work : List LocalWork) : List LocalWork :=
  work.filter (fun w => w = .PendingRemoteReply r)

theorem count_reply_slots (r : RemoteReplySubmission) (work : List LocalWork) :
    work.count (.PendingRemoteReply r) = (reply_slots r work).length := by
  rw [reply_slots, List.count_eq_length_filter]
  rfl

/-- The frame and the slots of a call belong together. -/
def CallPaired (c : CallId) (s : Thread) : Prop :=
  Paired (.call c) (frames (.call c) s.outgoing) (slots (.call c) s.local_work)

/-! ## The frame and the slots of a call -/

section Calls

variable {s : Thread} {c : CallId}

section

variable (h : CallPaired c s)
include h

theorem CallPaired.of_same {s' : Thread} (hsame : Same c s s') :
    CallPaired c s' := by
  unfold CallPaired
  rwa [hsame.frames_eq, hsame.slots_eq]

/-- A call that is not dead waits. -/
theorem CallPaired.waits (hc : .Active c ∈ s.outgoing)
    (hdead : .DeadReply c ∉ s.local_work) : Waits c s := by
  obtain ⟨hf, hw⟩ := h.of_active hc
  have hnone : LocalWork.DeadReply c ∉ slots (.call c) s.local_work :=
    fun hmem => hdead (mem_slots.mp hmem).1
  rcases hw with hw | hw | hw
  · exact ⟨hf, hw⟩
  · rw [hw] at hnone
    simp at hnone
  · rw [hw] at hnone
    simp at hnone

/-- Popping the entry of the call on top. -/
theorem CallPaired.pop (hc : s.last_outgoing = some c) :
    frames (.call c) s.outgoing.dropLast = [] := by
  obtain ⟨below, hout⟩ := last_outgoing_eq_some hc
  have hframes := (h.of_active (by rw [hout]; simp)).1
  rw [hout, frames_append] at hframes
  rw [hout, List.dropLast_concat]
  simpa using hframes

theorem CallPaired.commit {call : Option CallId}
    (hcall : ∀ c', call = some c' → .Active c' ∉ s.outgoing) : CallPaired c (s.commit call) := by
  by_cases hsame : call = some c
  · obtain ⟨hf, hw⟩ := Unheard.commit (h.of_not_active (hcall c hsame))
    rw [hsame]
    exact .inr ⟨hf, .inl hw⟩
  · exact h.of_same (commit_same s hsame)

theorem CallPaired.commit_remote_submission {token : RemoteSubmission}
    {call : Option CallToken} (hcall : ∀ c', call = some c' → .Active (.Remote c') ∉ s.outgoing) :
    CallPaired c (s.commit_remote_submission token call).2 := by
  by_cases hsame : ∃ c', call = some c' ∧ .Remote c' = c
  · obtain ⟨c', rfl, rfl⟩ := hsame
    obtain ⟨hf, hw⟩ := h.of_not_active (hcall c' rfl)
    simp only [Thread.commit_remote_submission]
    split
    · next hcount =>
      have hpending : OutgoingCall.Pending token ∈ s.outgoing := by simpa using hcount.2
      refine Or.inr ⟨frames_replace_enter (by simp) hf hpending, Or.inl ?_⟩
      dsimp only
      rw [slots_replaceAll_enter (by simp) hw, hcount.1]
      rfl
    · exact h
  · have hspared : Same c s (s.perform (.commit_remote_submission token call)).2 :=
      perform_same s fun c' hc' heq => hsame ⟨c', hc', heq⟩
    exact h.of_same hspared

theorem CallPaired.finish_outgoing {c' : CallId}
    (hdead : .DeadReply c' ∉ s.local_work) : CallPaired c (s.finish_outgoing c').2 := by
  rcases eq_or_ne c' c with rfl | hne
  · rcases finish_outgoing_cases s c' with ⟨_, heq⟩ | ⟨hlast, heq⟩
    · rwa [heq]
    · obtain ⟨below, hout⟩ := last_outgoing_eq_some hlast
      have hwaits := h.waits (by rw [hout]; simp) hdead
      rw [heq]
      refine .inl ⟨h.pop hlast, ?_⟩
      rw [slots_filter, hwaits.2]
      simp
  · exact h.of_same (finish_outgoing_same s hne)

end

/-- The dead reply of a call that waits takes both its slots. -/
theorem Waits.enqueue_dead_reply_slots (h : Waits c s) :
    slots (.call c) (s.enqueue_dead_reply c).2.local_work =
      [.TransactionComplete (some c), .DeadReply c] := by
  have hok := h.enqueue_dead_reply_ok
  unfold Thread.enqueue_dead_reply at hok ⊢
  split_ifs at hok ⊢
  rw [slots_replace_same (by simp) (by simp), slots_replace_same (by simp) (by simp), h.2,
    List.replace_cons_self, replace_cons_ne (by simp), List.replace_cons_self]

theorem enqueue_dead_reply_outgoing (s : Thread) (c : CallId) :
    (s.enqueue_dead_reply c).2.outgoing = s.outgoing := by
  rcases enqueue_dead_reply_cases s c with heq | heq
  · rw [heq]
  · rw [heq]

section

variable (h : CallPaired c s)
include h

/-- A call that does not wait cannot die. -/
theorem enqueue_dead_reply_of_not_waits (hnot : ¬ Waits c s) :
    s.enqueue_dead_reply c = (.error .InvalidOutgoingReply, s) := by
  unfold Thread.enqueue_dead_reply
  split_ifs with hactive hcount
  · rfl
  · exfalso
    have hactive : OutgoingCall.Active c ∈ s.outgoing := by simpa using hactive
    have hcount : s.local_work.count (.ReservedTerminal c) = 2 := by simpa using hcount
    rw [← count_slots (k := .call c) (by simp)] at hcount
    obtain ⟨hf, hw | hw | hw⟩ := h.of_active hactive
    · exact hnot ⟨hf, hw⟩
    · rw [hw] at hcount
      simp at hcount
    · rw [hw] at hcount
      simp at hcount
  · rfl

theorem CallPaired.enqueue_dead_reply (c' : CallId) :
    CallPaired c (s.enqueue_dead_reply c').2 := by
  rcases eq_or_ne c' c with rfl | hne
  · by_cases hwaits : Waits c' s
    · refine .inr ⟨?_, .inr (.inl hwaits.enqueue_dead_reply_slots)⟩
      rw [enqueue_dead_reply_outgoing]
      exact hwaits.1
    · rwa [enqueue_dead_reply_of_not_waits h hwaits]
  · exact h.of_same (enqueue_dead_reply_same s hne)

theorem CallPaired.enqueue_dead_replies (calls : List CallId) :
    CallPaired c (s.enqueue_dead_replies calls).2 := by
  induction calls generalizing s with
  | nil => exact h
  | cons c' _ ih =>
    have hfirst := h.enqueue_dead_reply c'
    unfold Thread.enqueue_dead_replies
    split
    · next e s' heq =>
      rwa [heq] at hfirst
    · next s' heq =>
      rw [heq] at hfirst
      exact ih hfirst

/-- A read takes the completion of a call before its dead reply, and the entry with the latter. -/
theorem CallPaired.read_local_work (output : ℕ) :
    CallPaired c (s.read_local_work output).2 := by
  rcases read_local_work_cases s output with
    ⟨_, heq⟩ | ⟨-, w, before, after, -, hsplit, hbefore, hw, heq⟩
  · rwa [heq]
  by_cases hsub : w.subject = some (.call c)
  swap
  · refine h.of_same ?_
    rw [heq]
    refine ⟨?_, ?_⟩
    · cases w with
      | DeadReply c' =>
        have hlast : s.last_outgoing = some c' := by simpa [visible] using hw
        refine frames_dropLast_other hlast ?_
        intro hk
        exact hsub (by simpa using hk.symm)
      | _ => rfl
    · rw [hsplit]
      exact slots_take_out hsub
  -- the record is about the call, so the call is on top
  have hlast : s.last_outgoing = some c := by
    cases w with
    | TransactionComplete call =>
      obtain rfl : call = some c := by simpa using hsub
      simpa [visible] using hw
    | DeadReply c' =>
      obtain rfl : c' = c := by simpa using hsub
      simpa [visible] using hw
    | ReservedTerminal | PendingRemote | PendingRemoteReply => simp [visible] at hw
    | RejectedRemote => simp at hsub
  obtain ⟨below, hout⟩ := last_outgoing_eq_some hlast
  obtain ⟨hf, hslots⟩ := h.of_active (by rw [hout]; simp)
  rw [hsplit, slots_around hsub] at hslots
  have hrest : slots (.call c) (before ++ after) = slots (.call c) before ++ slots (.call c) after :=
    slots_append ..
  rw [heq]
  rcases hslots with hslots | hslots | hslots
  · -- a reserved slot is not read
    rcases around_of_pair hslots with ⟨_, rfl, _⟩ | ⟨_, rfl, _⟩ <;> simp [visible] at hw
  · rcases around_of_pair hslots with ⟨hb, rfl, ha⟩ | ⟨hb, rfl, ha⟩
    · refine .inr ⟨hf, .inr (.inr ?_)⟩
      rw [hrest, hb, ha, List.nil_append]
    · -- the completion would have been read first
      have hmem : LocalWork.TransactionComplete (some c) ∈ slots (.call c) before := by
        rw [hb]
        simp
      have hhidden := hbefore _ (mem_slots.mp hmem).1
      simp [visible, hlast] at hhidden
  · obtain ⟨hb, rfl, ha⟩ := around_of_singleton hslots
    refine .inl ⟨h.pop hlast, ?_⟩
    rw [hrest, hb, ha, List.nil_append]

/-- **The frame and the slots of every call stay paired**, whatever an operation returns. -/
theorem CallPaired.perform {op : Op} (hlegal : Legal s op) :
    CallPaired c (s.perform op).2 := by
  cases op with
  | submit =>
    simp only [Thread.perform, reserve_submission]
    split
    · exact h
    · refine h.commit fun c' hc' => ?_
      subst hc'
      exact hlegal
  | commit_remote_submission =>
    refine h.commit_remote_submission fun c' hc' => ?_
    subst hc'
    exact hlegal
  | enqueue_dead_reply call => exact h.enqueue_dead_reply call
  | finish_outgoing => exact h.finish_outgoing hlegal
  | read_local_work output => exact h.read_local_work output
  | fail_remote_authority => exact h.enqueue_dead_replies _
  | _ => exact h.of_same (perform_same s trivial)

end

theorem Reached.paired (h : Reached s) (c : CallId) : CallPaired c s := by
  obtain ⟨id, s₀, ops, hnew, hrun⟩ := h
  refine Run.invariant (CallPaired c) ?_ ?_ hrun
  · unfold new at hnew
    split_ifs at hnew
    cases hnew
    exact .inl ⟨rfl, rfl⟩
  · rintro t op u ht ⟨hlegal, rfl⟩
    exact ht.perform hlegal

end Calls

/-! ## The end of the authority -/

section Authority

variable {s : Thread} {calls : List CallId}

/-- The terminal work of a call is there to be read, now or once the calls inside it have ended. -/
def Terminated (s : Thread) (call : CallToken) : Prop :=
  .TransactionComplete (some (.Remote call)) ∈ s.local_work ∨
    .DeadReply (.Remote call) ∈ s.local_work

theorem enqueue_dead_replies_outgoing (s : Thread) (calls : List CallId) :
    (s.enqueue_dead_replies calls).2.outgoing = s.outgoing := by
  induction calls generalizing s with
  | nil => rfl
  | cons c _ ih =>
    have hfirst := enqueue_dead_reply_outgoing s c
    unfold Thread.enqueue_dead_replies
    split
    · next e s' heq =>
      rwa [heq] at hfirst
    · next s' heq =>
      rw [heq] at hfirst
      rw [ih, hfirst]

theorem mem_authority_calls {c : CallToken} :
    .Remote c ∈ s.outgoing.filterMap authority_call ↔ .Active (.Remote c) ∈ s.outgoing := by
  rw [List.mem_filterMap]
  constructor
  · rintro ⟨e, he, hcall⟩
    unfold authority_call at hcall
    split at hcall
    · cases hcall
      exact he
    · cases hcall
    · cases hcall
    · cases hcall
  · intro hactive
    exact ⟨_, hactive, rfl⟩

/-- Every call that is failed is one of the authority. -/
theorem authority_calls_remote {c : CallId} (h : c ∈ s.outgoing.filterMap authority_call) :
    ∃ token, c = .Remote token := by
  obtain ⟨e, -, hcall⟩ := List.mem_filterMap.mp h
  unfold authority_call at hcall
  split at hcall
  · exact ⟨_, (Option.some.inj hcall).symm⟩
  · cases hcall
  · cases hcall
  · cases hcall

/-- No call is failed twice. -/
theorem authority_calls_nodup (h : ∀ c, CallPaired c s) :
    (s.outgoing.filterMap authority_call).Nodup := by
  rw [List.nodup_iff_count_le_one]
  intro c
  by_cases hc : c ∈ s.outgoing.filterMap authority_call
  swap
  · rw [List.count_eq_zero_of_not_mem hc]
    exact Nat.zero_le 1
  obtain ⟨token, rfl⟩ := authority_calls_remote hc
  have hframes := ((h _).of_active (mem_authority_calls.mp hc)).1
  -- the call is counted where its frames are
  have hcount : ∀ outgoing : List OutgoingCall,
      (outgoing.filterMap authority_call).count (.Remote token) =
        (frames (.call (.Remote token)) outgoing).length := by
    intro outgoing
    induction outgoing with
    | nil => rfl
    | cons e _ ih =>
      rw [frames_cons]
      cases e with
      | Pending | Rejected => simpa [List.filterMap_cons, authority_call] using ih
      | Active call =>
        cases call with
        | Local => simpa [List.filterMap_cons, authority_call] using ih
        | Remote token' =>
          rcases eq_or_ne token' token with rfl | heq
          · simp [authority_call, ih]
          · simp [authority_call, ih, heq]
  rw [hcount, hframes]
  exact Nat.le_refl 1

/-- Calls that wait are all failed. -/
theorem enqueue_dead_replies_ok (hnodup : calls.Nodup) (hwaits : ∀ c ∈ calls, Waits c s) :
    (s.enqueue_dead_replies calls).1 = .ok () ∧
      ∀ c, (c ∈ calls → slots (.call c) (s.enqueue_dead_replies calls).2.local_work =
          [.TransactionComplete (some c), .DeadReply c]) ∧
        (c ∉ calls → Same c s (s.enqueue_dead_replies calls).2) := by
  induction calls generalizing s with
  | nil => exact ⟨rfl, fun c => ⟨fun hc => absurd hc (by simp), fun _ => Same.refl c s⟩⟩
  | cons first calls ih =>
    obtain ⟨hfirst, hnodup⟩ := List.nodup_cons.mp hnodup
    have hwait := hwaits first (by simp)
    have hok := hwait.enqueue_dead_reply_ok
    have hslots := hwait.enqueue_dead_reply_slots
    have hother : ∀ c, first ≠ c → Same c s (s.enqueue_dead_reply first).2 :=
      fun c hne => enqueue_dead_reply_same s hne
    have hstep : s.enqueue_dead_replies (first :: calls) =
        (s.enqueue_dead_reply first).2.enqueue_dead_replies calls := by
      rw [Thread.enqueue_dead_replies]
      split
      · next e s' heq =>
        rw [heq] at hok
        cases hok
      · next s' heq => rw [heq]
    have hrest : ∀ c ∈ calls, Waits c (s.enqueue_dead_reply first).2 := by
      intro c hc
      have hne : first ≠ c := fun heq => hfirst (heq ▸ hc)
      exact (hother c hne).waits (hwaits c (by simp [hc]))
    obtain ⟨hok', hall⟩ := ih hnodup hrest
    rw [hstep]
    refine ⟨hok', fun c => ⟨?_, ?_⟩⟩
    · intro hc
      rcases eq_or_ne first c with rfl | hne
      · rw [((hall first).2 hfirst).slots_eq]
        exact hslots
      · exact (hall c).1 ((List.mem_cons.mp hc).resolve_left (Ne.symm hne))
    · intro hc
      rw [List.mem_cons, not_or] at hc
      have hsame := (hall c).2 hc.2
      have hsame' := hother c (Ne.symm hc.1)
      exact ⟨hsame.frames_eq.trans hsame'.frames_eq, hsame.slots_eq.trans hsame'.slots_eq⟩

/-- A call that does not wait stops the loop. -/
theorem enqueue_dead_replies_error {c : CallId} (hc : c ∈ calls)
    (h : ∀ c, CallPaired c s) (hnot : ¬ Waits c s) :
    (s.enqueue_dead_replies calls).1 ≠ .ok () := by
  induction calls generalizing s with
  | nil => cases hc
  | cons first _ ih =>
    unfold Thread.enqueue_dead_replies
    by_cases hwait : Waits first s
    swap
    · rw [enqueue_dead_reply_of_not_waits (h first) hwait]
      simp
    have hne : first ≠ c := fun heq => hnot (heq ▸ hwait)
    split
    · simp
    · next s' heq =>
      have hs' : (s.enqueue_dead_reply first).2 = s' := by rw [heq]
      refine ih ((List.mem_cons.mp hc).resolve_left (Ne.symm hne)) ?_ ?_
      · intro c'
        rw [← hs']
        exact (h c').enqueue_dead_reply first
      · intro hwaits
        have hsame := enqueue_dead_reply_same s hne
        rw [hs'] at hsame
        exact hnot ⟨hsame.frames_eq.symm.trans hwaits.1, hsame.slots_eq.symm.trans hwaits.2⟩

/-- **The end of the authority reaches every call exactly when none of them is dead already.** In a
state that a thread can come to, `fail_remote_authority` succeeds and leaves terminal work for every
call of the authority on the stack, if and only if no dead reply of such a call is still to be
read. -/
theorem fail_remote_authority_reaches_calls_iff (h : Reached s) :
    (s.fail_remote_authority.1 = .ok () ∧
      ∀ call, .Active (.Remote call) ∈ s.fail_remote_authority.2.outgoing →
        Terminated s.fail_remote_authority.2 call) ↔
    ∀ call, .DeadReply (.Remote call) ∉ s.local_work := by
  have hpaired := h.paired
  constructor
  · rintro ⟨hok, -⟩ call hdead
    -- a dead reply has its call on the stack, and no reserved slot
    have hactive : .Active (.Remote call) ∈ s.outgoing := by
      by_contra hnone
      have hmem := mem_slots.mpr ⟨hdead, LocalWork.subject_dead (.Remote call)⟩
      rw [((hpaired _).of_not_active hnone).2] at hmem
      exact absurd hmem List.not_mem_nil
    refine enqueue_dead_replies_error (mem_authority_calls.mpr hactive) hpaired ?_ hok
    intro hwaits
    have hmem := mem_slots.mpr ⟨hdead, LocalWork.subject_dead (.Remote call)⟩
    rw [hwaits.2] at hmem
    simp at hmem
  · intro hnone
    have hwaits : ∀ c ∈ s.outgoing.filterMap authority_call, Waits c s := by
      intro c hc
      obtain ⟨token, rfl⟩ := authority_calls_remote hc
      exact (hpaired _).waits (mem_authority_calls.mp hc) (hnone token)
    obtain ⟨hok, hslots⟩ := enqueue_dead_replies_ok (authority_calls_nodup hpaired) hwaits
    refine ⟨hok, fun call hactive => ?_⟩
    rw [fail_remote_authority, enqueue_dead_replies_outgoing] at hactive
    have hpair := (hslots (.Remote call)).1 (mem_authority_calls.mpr hactive)
    have hmem : LocalWork.DeadReply (.Remote call) ∈
        slots (.call (.Remote call)) s.fail_remote_authority.2.local_work := by
      rw [fail_remote_authority, hpair]
      simp
    exact .inr (mem_slots.mp hmem).1

def outer_call : CallToken := ⟨1, Nat.one_ne_zero, Token.one_fits⟩

def inner_call : CallToken := ⟨2, Token.two_nonzero, Token.two_fits⟩

/-- Two calls wait, and the target of the outer one has died. The end of the authority stops at the
outer call, and the inner one is left waiting for ever. -/
theorem dead_call_hides_waiting_call :
    ∃ s, Reached s ∧ .Active (.Remote inner_call) ∈ s.outgoing ∧
      s.fail_remote_authority.1 = .error .InvalidOutgoingReply ∧
      .Active (.Remote inner_call) ∈ s.fail_remote_authority.2.outgoing ∧
      ¬ Terminated s.fail_remote_authority.2 inner_call := by
  have hrun : Run Attempt ⟨.None, 1, [], [], [], 0⟩ [.begin_remote_submission true true,
      .commit_remote_submission ⟨1⟩ (some outer_call), .begin_remote_submission true true,
      .commit_remote_submission ⟨2⟩ (some inner_call), .enqueue_dead_reply (.Remote outer_call)]
      ⟨.None, 1, [.Active (.Remote outer_call), .Active (.Remote inner_call)], [],
        [.TransactionComplete (some (.Remote outer_call)), .DeadReply (.Remote outer_call),
          .ReservedTerminal (.Remote inner_call), .ReservedTerminal (.Remote inner_call)], 2⟩ :=
    (((((Run.nil _).snoc ⟨trivial, rfl⟩).snoc
      ⟨by show OutgoingCall.Active _ ∉ _; decide, rfl⟩).snoc ⟨trivial, rfl⟩).snoc
      ⟨by show OutgoingCall.Active _ ∉ _; decide, rfl⟩).snoc ⟨trivial, rfl⟩
  refine ⟨_, ⟨1, _, _, rfl, hrun⟩, by simp, rfl, ?_, ?_⟩
  · rw [fail_remote_authority, enqueue_dead_replies_outgoing]
    simp
  · have hwork : (Thread.mk .None 1 [.Active (.Remote outer_call), .Active (.Remote inner_call)] []
        [.TransactionComplete (some (.Remote outer_call)), .DeadReply (.Remote outer_call),
          .ReservedTerminal (.Remote inner_call), .ReservedTerminal (.Remote inner_call)]
        2).fail_remote_authority.2.local_work =
        [.TransactionComplete (some (.Remote outer_call)), .DeadReply (.Remote outer_call),
          .ReservedTerminal (.Remote inner_call), .ReservedTerminal (.Remote inner_call)] := rfl
    rw [Terminated, hwork]
    decide

/-- Two calls wait: the end of the authority reaches both. -/
theorem waiting_calls_are_reached :
    ∃ s, Reached s ∧ s.outgoing = [.Active (.Remote outer_call), .Active (.Remote inner_call)] ∧
      s.fail_remote_authority.1 = .ok () ∧ Terminated s.fail_remote_authority.2 outer_call ∧
      Terminated s.fail_remote_authority.2 inner_call := by
  have hrun : Run Attempt ⟨.None, 1, [], [], [], 0⟩ [.begin_remote_submission true true,
      .commit_remote_submission ⟨1⟩ (some outer_call), .begin_remote_submission true true,
      .commit_remote_submission ⟨2⟩ (some inner_call)]
      ⟨.None, 1, [.Active (.Remote outer_call), .Active (.Remote inner_call)], [],
        [.ReservedTerminal (.Remote outer_call), .ReservedTerminal (.Remote outer_call),
          .ReservedTerminal (.Remote inner_call), .ReservedTerminal (.Remote inner_call)], 2⟩ :=
    ((((Run.nil _).snoc ⟨trivial, rfl⟩).snoc
      ⟨by show OutgoingCall.Active _ ∉ _; decide, rfl⟩).snoc ⟨trivial, rfl⟩).snoc
      ⟨by show OutgoingCall.Active _ ∉ _; decide, rfl⟩
  have hreached : Reached _ := ⟨1, _, _, rfl, hrun⟩
  obtain ⟨hok, hall⟩ := (fail_remote_authority_reaches_calls_iff hreached).mpr (by simp)
  rw [fail_remote_authority, enqueue_dead_replies_outgoing] at hall
  exact ⟨_, hreached, rfl, hok, hall outer_call (by simp), hall inner_call (by simp)⟩

end Authority

/-! ## The slots of replies -/

section Replies

variable {s : Thread} {r : RemoteReplySubmission}

/-- The operations on replies. -/
def on_reply : Op → Bool
  | .begin_remote_reply _ | .commit_remote_reply _ _ | .abort_remote_reply _ _ => true
  | _ => false

theorem reply_slots_replace {w w' : LocalWork} (hw : w ≠ .PendingRemoteReply r)
    (hw' : w' ≠ .PendingRemoteReply r) (work : List LocalWork) :
    reply_slots r (work.replace w w') = reply_slots r work :=
  filter_replace_outside (by simpa using hw) (by simpa using hw') work

theorem reply_slots_filter {w : LocalWork} (hw : w ≠ .PendingRemoteReply r) (work : List LocalWork) :
    reply_slots r (work.filter (fun x => x ≠ w)) = reply_slots r work := by
  unfold reply_slots
  rw [List.filter_filter]
  refine List.filter_congr fun x _ => ?_
  by_cases hx : x = .PendingRemoteReply r
  · have hne : LocalWork.PendingRemoteReply r ≠ w := Ne.symm hw
    simp [hx, hne]
  · simp [hx]

theorem enqueue_dead_reply_replies (s : Thread) (c : CallId) :
    reply_slots r (s.enqueue_dead_reply c).2.local_work = reply_slots r s.local_work ∧
      (s.enqueue_dead_reply c).2.next_remote_submission = s.next_remote_submission := by
  rcases enqueue_dead_reply_cases s c with heq | heq
  · rw [heq]
    exact ⟨rfl, rfl⟩
  · rw [heq]
    refine ⟨?_, rfl⟩
    rw [reply_slots_replace (by simp) (by simp), reply_slots_replace (by simp) (by simp)]

theorem enqueue_dead_replies_replies (s : Thread) (calls : List CallId) :
    reply_slots r (s.enqueue_dead_replies calls).2.local_work = reply_slots r s.local_work ∧
      (s.enqueue_dead_replies calls).2.next_remote_submission = s.next_remote_submission := by
  induction calls generalizing s with
  | nil => exact ⟨rfl, rfl⟩
  | cons c _ ih =>
    have hfirst := enqueue_dead_reply_replies (r := r) s c
    unfold Thread.enqueue_dead_replies
    split
    · next e s' heq =>
      rwa [heq] at hfirst
    · next s' heq =>
      rw [heq] at hfirst
      obtain ⟨hslots, hnext⟩ := ih s'
      exact ⟨hslots.trans hfirst.1, hnext.trans hfirst.2⟩

/-- **The other operations leave the slots of replies alone.** -/
theorem perform_reply_slots (s : Thread) {op : Op} (hop : on_reply op = false) :
    reply_slots r (s.perform op).2.local_work = reply_slots r s.local_work ∧
      s.next_remote_submission ≤ (s.perform op).2.next_remote_submission := by
  have h := perform_left s op
  generalize (s.perform op).2 = t at h
  cases h with
  | same | accept_incoming | finish_incoming | cancel_incoming => exact ⟨rfl, Nat.le_refl _⟩
  | @submit _ _ call =>
    cases call with
    | none | some => exact ⟨by simp [Thread.commit, reply_slots], Nat.le_refl _⟩
  | @begin_remote_submission synchronous _ _ hserial =>
    refine ⟨?_, hserial⟩
    cases synchronous <;> simp [reply_slots]
  | commit_call | commit_oneway =>
    exact ⟨filter_replaceAll_outside (by simp) (by simp) _, Nat.le_refl _⟩
  | abort_remote_submission | finish_outgoing =>
    exact ⟨reply_slots_filter (by simp) _, Nat.le_refl _⟩
  | reject_remote_submission =>
    refine ⟨?_, Nat.le_refl _⟩
    rw [reply_slots, ← List.erase_filter, List.erase_of_not_mem (by simp)]
    exact reply_slots_replace (by simp) (by simp) _
  | begin_remote_reply | commit_remote_reply | abort_remote_reply => cases hop
  | enqueue_dead_reply =>
    refine ⟨?_, Nat.le_refl _⟩
    rw [reply_slots_replace (by simp) (by simp), reply_slots_replace (by simp) (by simp)]
  | @read_local_work _ w _ _ _ _ _ _ hsplit hw =>
    -- a slot of a reply is not visible
    have hne : w ≠ .PendingRemoteReply r := by
      rintro rfl
      simp [visible] at hw
    refine ⟨?_, Nat.le_refl _⟩
    rw [hsplit, reply_slots, reply_slots, List.filter_append, List.filter_append,
      List.filter_cons_of_neg (by simpa using hne)]
  | fail_remote_authority =>
    obtain ⟨hslots, hnext⟩ :=
      enqueue_dead_replies_replies (r := r) s (s.outgoing.filterMap authority_call)
    exact ⟨hslots, Nat.le_of_eq hnext.symm⟩

/-- Slots of replies have numbers that were given out. -/
def Numbered (s : Thread) : Prop :=
  ∀ r : RemoteReplySubmission, s.next_remote_submission < r.serial → reply_slots r s.local_work = []

/-- What `begin_remote_reply` does when it begins a reply. -/
theorem begin_remote_reply_eq_ok {s s' : Thread} {memory : Bool} {submission : RemoteReplySubmission}
    {call : CallToken} (h : s.begin_remote_reply memory = (.ok (some (submission, call)), s')) :
    ∃ below e, s.incoming = below ++ [e] ∧
      (e = .Active (.Remote call) ∨ e = .CallerDead (.Remote call)) ∧
      submission = ⟨s.next_remote_submission + 1⟩ ∧
      s' = { s with
        next_remote_submission := s.next_remote_submission + 1
        incoming := below ++ [.PendingReply submission (.Remote call)]
        local_work := s.local_work ++ [.PendingRemoteReply submission] } := by
  have hsubmit : ∀ call' below e, s.incoming = below ++ [e] →
      s.submit_remote_reply call' memory = (.ok (some (submission, call)), s') →
      call' = call ∧ submission = ⟨s.next_remote_submission + 1⟩ ∧
      s' = { s with
        next_remote_submission := s.next_remote_submission + 1
        incoming := below ++ [.PendingReply submission (.Remote call)]
        local_work := s.local_work ++ [.PendingRemoteReply submission] } := by
    intro call' below e hincoming h
    unfold submit_remote_reply at h
    split at h
    · simp at h
    next serial hserial =>
    obtain ⟨-, rfl⟩ := checked_add_eq_some.mp hserial
    split at h
    · simp at h
    rw [hincoming, List.dropLast_concat] at h
    cases h
    exact ⟨rfl, rfl, rfl⟩
  unfold begin_remote_reply at h
  split at h
  · next call' htop =>
    obtain ⟨below, hincoming⟩ := List.getLast?_eq_some_iff.mp htop
    obtain ⟨rfl, hsubmission, hs'⟩ := hsubmit call' below _ hincoming h
    exact ⟨below, _, hincoming, .inl rfl, hsubmission, hs'⟩
  · next call' htop =>
    obtain ⟨below, hincoming⟩ := List.getLast?_eq_some_iff.mp htop
    obtain ⟨rfl, hsubmission, hs'⟩ := hsubmit call' below _ hincoming h
    exact ⟨below, _, hincoming, .inr rfl, hsubmission, hs'⟩
  · simp at h
  · simp at h
  · simp at h
  · simp at h

theorem Numbered.perform (h : Numbered s) (op : Op) : Numbered (s.perform op).2 := by
  cases hop : on_reply op with
  | false =>
    intro r hr
    obtain ⟨hslots, hnext⟩ := perform_reply_slots (r := r) s hop
    rw [hslots]
    exact h r (by omega)
  | true =>
    have hleft := perform_left s op
    generalize (s.perform op).2 = t at hleft
    cases hleft with
    | same => exact h
    | begin_remote_reply =>
      intro r hr
      dsimp only at hr ⊢
      have hold := h r (by omega)
      have hnew : r ≠ ⟨s.next_remote_submission + 1⟩ := by
        rintro rfl
        exact absurd hr (Nat.lt_irrefl _)
      rw [reply_slots, List.filter_append, ← reply_slots, hold,
        List.filter_cons_of_neg (by simpa using Ne.symm hnew)]
      rfl
    | @commit_remote_reply submission =>
      intro r hr
      have hold := h r hr
      rcases eq_or_ne submission r with rfl | hsame
      · rw [reply_slots, filter_replace_leave (by simp) (by simp), ← reply_slots, hold]
        rfl
      · rw [reply_slots_replace (by simpa using hsame) (by simp), hold]
    | abort_remote_reply =>
      intro r hr
      have hold := h r hr
      rw [reply_slots, List.filter_comm, ← reply_slots, hold]
      rfl
    | _ => cases hop

theorem Reached.numbered (h : Reached s) : Numbered s := by
  obtain ⟨id, s₀, ops, hnew, hrun⟩ := h
  refine Run.invariant Numbered ?_ ?_ hrun
  · unfold new at hnew
    split_ifs at hnew
    cases hnew
    intro r _
    rfl
  · rintro t op u ht ⟨-, rfl⟩
    exact ht.perform op

end Replies

/-! ## A reply that is begun and aborted -/

section Abort

variable {s : Thread} {call : CallToken} {e : IncomingCall} {r : RemoteReplySubmission}

/-- What may come between the beginning of a reply and its abort: reads, submissions to the
authority, and the death of the caller. -/
def unrelated (call : CallToken) : Op → Bool
  | .read_local_work _ | .begin_remote_submission _ _ | .commit_remote_submission _ _
  | .abort_remote_submission _ | .reject_remote_submission _ _ => true
  | .cancel_incoming c => c = .Remote call
  | _ => false

/-- One of these steps. -/
def Between (call : CallToken) (s : Thread) (op : Op) (t : Thread) : Prop :=
  unrelated call op = true ∧ Attempt s op t

variable {below : List IncomingCall}

/-- The entry of a call on top of the stack when its caller dies. -/
theorem cancel_incoming_top
    (hincoming : s.incoming = below ++ [e]) (he : serves (.Remote call) e = true) :
    (s.cancel_incoming (.Remote call)).2.incoming =
      below ++ [match e with
        | .Active (.Remote _) => .CallerDead (.Remote call)
        | e => e] := by
  have hfind : s.incoming.reverse.findIdx? (serves (.Remote call)) = some 0 := by
    rw [hincoming, List.reverse_append, List.reverse_singleton, List.singleton_append,
      List.findIdx?_cons, if_pos he]
  have hposition : s.incoming.length - 1 - 0 = below.length := by
    rw [hincoming, List.length_append, List.length_singleton]
    omega
  have hget : s.incoming[below.length]? = some e := by
    rw [hincoming, List.getElem?_append_right (Nat.le_refl _), Nat.sub_self]
    rfl
  simp only [cancel_incoming, hfind, hposition, hget]
  cases e with
  | Active c =>
    cases c with
    | Remote =>
      dsimp only
      rw [hincoming, List.set_append_right _ _ (Nat.le_refl _), Nat.sub_self]
      rfl
    | Local => exact hincoming
  | CallerDead => exact hincoming
  | PendingReply => exact hincoming

/-- The other steps leave `incoming` alone. -/
theorem unrelated_incoming {op : Op} (hop : unrelated call op = true)
    (hcancel : op ≠ .cancel_incoming (.Remote call)) (s : Thread) :
    (s.perform op).2.incoming = s.incoming := by
  have h := perform_left s op
  generalize (s.perform op).2 = t at h
  cases h with
  | @cancel_incoming c =>
    have hc : c = .Remote call := by simpa [unrelated] using hop
    exact absurd (by rw [hc]) hcancel
  | same | begin_remote_submission | commit_call | commit_oneway | abort_remote_submission
  | reject_remote_submission | read_local_work => rfl
  | _ => cases hop

theorem unrelated_not_on_reply {op : Op} (hop : unrelated call op = true) : on_reply op = false := by
  cases op <;> first | rfl | cases hop

/-- While the reply is pending its entry and its slot stay. -/
theorem pending_reply_stays {s t : Thread} {ops : List Op}
    (hincoming : s.incoming = below ++ [.PendingReply r (.Remote call)])
    (hslots : reply_slots r s.local_work = [.PendingRemoteReply r])
    (hrun : Run (Between call) s ops t) :
    t.incoming = below ++ [.PendingReply r (.Remote call)] ∧
      reply_slots r t.local_work = [.PendingRemoteReply r] := by
  refine Run.invariant (fun t => t.incoming = below ++ [.PendingReply r (.Remote call)] ∧
    reply_slots r t.local_work = [.PendingRemoteReply r]) ⟨hincoming, hslots⟩ ?_ hrun
  rintro u op v ⟨hu, hwork⟩ ⟨hop, -, rfl⟩
  refine ⟨?_, ?_⟩
  · by_cases hcancel : op = .cancel_incoming (.Remote call)
    · rw [hcancel]
      exact cancel_incoming_top hu (by simp [serves])
    · rw [unrelated_incoming hop hcancel, hu]
  · rw [(perform_reply_slots u (unrelated_not_on_reply hop)).1, hwork]

/-- Without a reply, the entry on top says whether the caller has died. -/
theorem unreplied_entry {s t : Thread} {ops : List Op} (hincoming : s.incoming = below ++ [e])
    (he : e = .Active (.Remote call) ∨ e = .CallerDead (.Remote call))
    (hrun : Run (Between call) s ops t) :
    (.cancel_incoming (.Remote call) ∈ ops ∧ t.incoming = below ++ [.CallerDead (.Remote call)]) ∨
      (.cancel_incoming (.Remote call) ∉ ops ∧ t.incoming = below ++ [e]) := by
  refine Run.history (fun ops t =>
    (.cancel_incoming (.Remote call) ∈ ops ∧ t.incoming = below ++ [.CallerDead (.Remote call)]) ∨
      (.cancel_incoming (.Remote call) ∉ ops ∧ t.incoming = below ++ [e])) ?_ ?_ hrun
  · exact .inr ⟨by simp, hincoming⟩
  · rintro ops u op v - hu ⟨hop, -, rfl⟩
    by_cases hcancel : op = .cancel_incoming (.Remote call)
    · subst hcancel
      refine .inl ⟨by simp, ?_⟩
      -- whatever the entry says, it says so now
      have htop : u.incoming = below ++ [.Active (.Remote call)] ∨
          u.incoming = below ++ [.CallerDead (.Remote call)] := by
        rcases hu with ⟨-, hu⟩ | ⟨-, hu⟩
        · exact .inr hu
        · rcases he with rfl | rfl
          · exact .inl hu
          · exact .inr hu
      rcases htop with htop | htop
      · exact cancel_incoming_top htop (by simp [serves])
      · exact cancel_incoming_top htop (by simp [serves])
    · rw [unrelated_incoming hop hcancel, List.mem_append, List.mem_singleton,
        or_iff_left (Ne.symm hcancel)]
      exact hu

/-- `abort_remote_reply` of the reply on top. -/
theorem abort_remote_reply_top (hincoming : s.incoming = below ++ [.PendingReply r (.Remote call)])
    (hslots : reply_slots r s.local_work = [.PendingRemoteReply r]) :
    s.abort_remote_reply r call = (.ok (), { s with
      local_work := s.local_work.filter (fun work => work ≠ .PendingRemoteReply r)
      incoming := below ++ [.Active (.Remote call)] }) := by
  have hcount : s.local_work.count (.PendingRemoteReply r) = 1 := by
    rw [count_reply_slots, hslots]
    rfl
  unfold abort_remote_reply
  rw [hincoming, List.getLast?_concat, if_neg (not_not.mpr rfl), List.dropLast_concat]
  rw [if_neg (not_not.mpr hcount)]

/-- **To abort a reply undoes beginning it exactly when the caller lives.** A reply is begun in a
state a thread can come to, and aborted after any unrelated steps. The abort succeeds, takes the
slot of the reply out, and leaves `incoming` as it would be without the reply, if and only if the
caller had not died before and has not died in between. -/
theorem abort_remote_reply_undoes_begin_iff {s s₁ s₂ : Thread} {memory : Bool}
    {submission : RemoteReplySubmission} {call : CallToken} {ops : List Op} (h : Reached s)
    (hbegin : s.begin_remote_reply memory = (.ok (some (submission, call)), s₁))
    (hrun : Run (Between call) s₁ ops s₂) :
    ((s₂.abort_remote_reply submission call).1 = .ok () ∧
      .PendingRemoteReply submission ∉ (s₂.abort_remote_reply submission call).2.local_work ∧
      ∀ ops' t, Run (Between call) s ops' t →
        (.cancel_incoming (.Remote call) ∈ ops' ↔ .cancel_incoming (.Remote call) ∈ ops) →
        (s₂.abort_remote_reply submission call).2.incoming = t.incoming) ↔
    s.incoming.getLast? = some (.Active (.Remote call)) ∧ .cancel_incoming (.Remote call) ∉ ops := by
  obtain ⟨below, e, hincoming, he, rfl, rfl⟩ := begin_remote_reply_eq_ok hbegin
  have hfresh := h.numbered ⟨s.next_remote_submission + 1⟩ (Nat.lt_succ_self _)
  have hslots : reply_slots ⟨s.next_remote_submission + 1⟩
      (s.local_work ++ [.PendingRemoteReply ⟨s.next_remote_submission + 1⟩]) =
      [.PendingRemoteReply ⟨s.next_remote_submission + 1⟩] := by
    rw [reply_slots, List.filter_append, ← reply_slots, hfresh]
    simp
  obtain ⟨htop, hslot⟩ := pending_reply_stays rfl hslots hrun
  have htop_s : s.incoming.getLast? = some e := by
    rw [hincoming, List.getLast?_concat]
  rw [abort_remote_reply_top htop hslot, htop_s, Option.some.injEq]
  constructor
  · rintro ⟨-, -, hsame⟩
    -- compare with the run in which the caller dies, if it does, and nothing else happens
    have hlast : ∀ e', below ++ [IncomingCall.Active (.Remote call)] = below ++ [e'] →
        .Active (.Remote call) = e' := fun e' heq => by simpa using heq
    by_cases hcancel : .cancel_incoming (.Remote call) ∈ ops
    · exfalso
      have hone : Run (Between call) s [.cancel_incoming (.Remote call)]
          (s.cancel_incoming (.Remote call)).2 :=
        Run.single ⟨by simp [unrelated], trivial, rfl⟩
      have heq := hsame _ _ hone (by simp [hcancel])
      obtain ⟨-, hdead⟩ | ⟨hnone, -⟩ := unreplied_entry hincoming he hone
      · rw [hdead] at heq
        exact nomatch hlast _ heq
      · exact hnone (List.mem_singleton.mpr rfl)
    · have heq := hsame _ _ (Run.nil s) (by simp [hcancel])
      rw [hincoming] at heq
      exact ⟨(hlast e heq).symm, hcancel⟩
  · rintro ⟨rfl, hcancel⟩
    refine ⟨rfl, by simp, fun ops' t hrun' hcancels => ?_⟩
    obtain ⟨hmem, -⟩ | ⟨-, ht⟩ := unreplied_entry hincoming he hrun'
    · exact absurd (hcancels.mp hmem) hcancel
    · exact ht.symm

/-- The caller of a call dies while the reply is being sent, the reply is aborted, and the thread
takes the caller for alive: the death is accepted a second time. -/
theorem aborted_reply_revives_caller :
    ∃ s s₁ s₂ submission, Reached s ∧
      s.begin_remote_reply true = (.ok (some (submission, outer_call)), s₁) ∧
      Run (Between outer_call) s₁ [.cancel_incoming (.Remote outer_call)] s₂ ∧
      (s₂.abort_remote_reply submission outer_call).2.incoming = [.Active (.Remote outer_call)] ∧
      ((s₂.abort_remote_reply submission outer_call).2.cancel_incoming (.Remote outer_call)).1 = true ∧
      ((s.cancel_incoming (.Remote outer_call)).2.cancel_incoming (.Remote outer_call)).1 = false := by
  have hrun : Run Attempt ⟨.None, 1, [], [], [], 0⟩ [.accept_incoming (.Remote outer_call)]
      ⟨.None, 1, [], [.Active (.Remote outer_call)], [], 0⟩ := Run.single ⟨trivial, rfl⟩
  refine ⟨_, _, _, _, ⟨1, _, _, rfl, hrun⟩, rfl, Run.single ⟨rfl, trivial, rfl⟩, ?_, ?_, ?_⟩
  · decide
  · decide
  · decide

/-- A reply to a caller that lives is begun and aborted. -/
theorem aborted_reply_leaves_call :
    ∃ s s₁ submission, Reached s ∧
      s.begin_remote_reply true = (.ok (some (submission, outer_call)), s₁) ∧
      (s₁.abort_remote_reply submission outer_call).1 = .ok () ∧
      (s₁.abort_remote_reply submission outer_call).2.incoming = s.incoming := by
  have hrun : Run Attempt ⟨.None, 1, [], [], [], 0⟩ [.accept_incoming (.Remote outer_call)]
      ⟨.None, 1, [], [.Active (.Remote outer_call)], [], 0⟩ := Run.single ⟨trivial, rfl⟩
  have hreached : Reached _ := ⟨1, _, _, rfl, hrun⟩
  have hbegin : Thread.begin_remote_reply
      ⟨.None, 1, [], [.Active (.Remote outer_call)], [], 0⟩ true =
      (.ok (some (⟨1⟩, outer_call)), ⟨.None, 1, [], [.PendingReply ⟨1⟩ (.Remote outer_call)],
        [.PendingRemoteReply ⟨1⟩], 1⟩) := rfl
  obtain ⟨hok, -, hsame⟩ := (abort_remote_reply_undoes_begin_iff hreached hbegin
    (Run.nil _)).mpr ⟨rfl, by simp⟩
  exact ⟨_, _, _, hreached, hbegin, hok, hsame [] _ (Run.nil _) Iff.rfl⟩

end Abort

end DarwinArt.Binder.Thread
