/-
The stack of a thread and the slots of its calls: what the fifteen operations of
`thread/transactions.rs` keep true of `outgoing` and `local_work` together.

The two lists are looked at subject by subject. A subject is a call or a submission; its
*frames* are the entries of `outgoing` about it and its *slots* the records of
`local_work` about it. `Paired` lists the combinations that belong together, and `Inv`
says that every subject is in one of them. An operation edits the lists in one or two
places, so it moves one or two subjects from one combination to another and leaves the
frames and slots of all others alone (`Inv.step`).

## The read that keeps its frame

One move leads out of `Paired`: `read_local_work` returns the report of a rejected
synchronous submission and keeps the `Rejected` entry on the stack, because the pop is an
argument of `debug_assert_eq!`. `Reports` names the reads that do so.
-/
import DarwinArt.Binder.Thread

set_option autoImplicit false

namespace DarwinArt.Binder

open Lib Lib.ListEdit

/-! ## Subjects -/

/-- What a stack entry or a record is about. -/
inductive Subject
  | call (c : CallId)
  | submission (t : RemoteSubmission)
deriving DecidableEq

def OutgoingCall.subject : OutgoingCall → Subject
  | .Pending t | .Rejected t => .submission t
  | .Active c => .call c

/-- A completion of a one-way transaction and the slot of a reply are about no entry of
the stack. -/
def LocalWork.subject : LocalWork → Option Subject
  | .TransactionComplete call => call.map .call
  | .DeadReply c | .ReservedTerminal c => some (.call c)
  | .PendingRemote t | .RejectedRemote t _ _ => some (.submission t)
  | .PendingRemoteReply _ => none

section SubjectSimp

variable (c : CallId) (t : RemoteSubmission)

@[simp]
theorem OutgoingCall.subject_pending : (OutgoingCall.Pending t).subject = .submission t := rfl

@[simp]
theorem OutgoingCall.subject_rejected : (OutgoingCall.Rejected t).subject = .submission t := rfl

@[simp]
theorem OutgoingCall.subject_active : (OutgoingCall.Active c).subject = .call c := rfl

@[simp]
theorem LocalWork.subject_complete (o : Option CallId) :
    (LocalWork.TransactionComplete o).subject = o.map .call := rfl

@[simp]
theorem LocalWork.subject_dead : (LocalWork.DeadReply c).subject = some (.call c) := rfl

@[simp]
theorem LocalWork.subject_reserved :
    (LocalWork.ReservedTerminal c).subject = some (.call c) := rfl

@[simp]
theorem LocalWork.subject_pending :
    (LocalWork.PendingRemote t).subject = some (.submission t) := rfl

@[simp]
theorem LocalWork.subject_rejected (b : Bool) (r : TransactionFailure) :
    (LocalWork.RejectedRemote t b r).subject = some (.submission t) := rfl

@[simp]
theorem LocalWork.subject_reply (r : RemoteReplySubmission) :
    (LocalWork.PendingRemoteReply r).subject = none := rfl

end SubjectSimp

namespace Thread

/-- The stack entries about `k`. -/
def frames (k : Subject) (outgoing : List OutgoingCall) : List OutgoingCall :=
  outgoing.filter (fun e => e.subject = k)

/-- The records about `k`. -/
def slots (k : Subject) (work : List LocalWork) : List LocalWork :=
  work.filter (fun w => w.subject = some k)

section

variable (k : Subject)
include k

@[simp]
theorem frames_append (l₁ l₂ : List OutgoingCall) :
    frames k (l₁ ++ l₂) = frames k l₁ ++ frames k l₂ :=
  List.filter_append ..

@[simp]
theorem slots_append (l₁ l₂ : List LocalWork) :
    slots k (l₁ ++ l₂) = slots k l₁ ++ slots k l₂ :=
  List.filter_append ..

@[simp]
theorem frames_cons (e : OutgoingCall) (l : List OutgoingCall) :
    frames k (e :: l) = if e.subject = k then e :: frames k l else frames k l := by
  simp [frames, List.filter_cons]

@[simp]
theorem slots_cons (w : LocalWork) (l : List LocalWork) :
    slots k (w :: l) = if w.subject = some k then w :: slots k l else slots k l := by
  simp [slots, List.filter_cons]

@[simp]
theorem frames_nil : frames k [] = [] := rfl

@[simp]
theorem slots_nil : slots k [] = [] := rfl

end

variable {k : Subject} {w : LocalWork} {c : CallId} {token : RemoteSubmission}
  {after before : List LocalWork} {synchronous : Bool}

theorem mem_frames {l : List OutgoingCall} {e : OutgoingCall} :
    e ∈ frames k l ↔ e ∈ l ∧ e.subject = k := by
  simp [frames]

theorem mem_slots {l : List LocalWork} :
    w ∈ slots k l ↔ w ∈ l ∧ w.subject = some k := by
  simp [slots]

/-- Counting a record among those of its subject is counting it. -/
theorem count_slots (hw : w.subject = some k) (l : List LocalWork) :
    (slots k l).count w = l.count w :=
  List.count_filter (by simpa using hw)

/-! ### Edits

What an edit of either list does to the frames and slots of one subject. -/

section Edits

variable {k : Subject}

theorem frames_erase (e : OutgoingCall) (l : List OutgoingCall) :
    frames k (l.erase e) = (frames k l).erase e :=
  (List.erase_filter ..).symm

theorem slots_erase (w : LocalWork) (l : List LocalWork) :
    slots k (l.erase w) = (slots k l).erase w :=
  (List.erase_filter ..).symm

theorem slots_filter (q : LocalWork → Bool) (l : List LocalWork) :
    slots k (l.filter q) = (slots k l).filter q := by
  simp only [slots, List.filter_filter, Bool.and_comm]

theorem slots_filter_ne {w : LocalWork} (hw : w.subject ≠ some k) (l : List LocalWork) :
    slots k (l.filter (fun x => x ≠ w)) = slots k l := by
  rw [slots_filter]
  refine List.filter_eq_self.mpr fun x hx => ?_
  have hne : x ≠ w := by
    rintro rfl
    exact hw (mem_slots.mp hx).2
  simpa using hne

variable {e e' : OutgoingCall} {w w' : LocalWork}

theorem frames_replace_other (he : e.subject ≠ k) (he' : e'.subject ≠ k) (l : List OutgoingCall) :
    frames k (l.replace e e') = frames k l :=
  filter_replace_outside (by simpa using he) (by simpa using he') l

theorem frames_replace_same (he : e.subject = k) (he' : e'.subject = k) (l : List OutgoingCall) :
    frames k (l.replace e e') = (frames k l).replace e e' :=
  filter_replace_inside (by simpa using he) (by simpa using he') l

theorem frames_replace_leave (he : e.subject = k) (he' : e'.subject ≠ k) (l : List OutgoingCall) :
    frames k (l.replace e e') = (frames k l).erase e :=
  filter_replace_leave (by simpa using he) (by simpa using he') l

theorem frames_replace_enter (he' : e'.subject = k) {l : List OutgoingCall}
    (hl : frames k l = []) (hmem : e ∈ l) : frames k (l.replace e e') = [e'] :=
  filter_replace_enter (by simpa using he') hl hmem

theorem slots_replace_other (hw : w.subject ≠ some k) (hw' : w'.subject ≠ some k)
    (l : List LocalWork) : slots k (l.replace w w') = slots k l :=
  filter_replace_outside (by simpa using hw) (by simpa using hw') l

theorem slots_replace_same (hw : w.subject = some k) (hw' : w'.subject = some k)
    (l : List LocalWork) : slots k (l.replace w w') = (slots k l).replace w w' :=
  filter_replace_inside (by simpa using hw) (by simpa using hw') l

theorem slots_replaceAll_other (hw : w.subject ≠ some k) (hw' : w'.subject ≠ some k)
    (l : List LocalWork) : slots k (replaceAll w w' l) = slots k l :=
  filter_replaceAll_outside (by simpa using hw) (by simpa using hw') l

theorem slots_replaceAll_leave (hw : w.subject = some k) (hw' : w'.subject ≠ some k)
    (l : List LocalWork) : slots k (replaceAll w w' l) = (slots k l).filter (fun x => x ≠ w) :=
  filter_replaceAll_leave (by simpa using hw) (by simpa using hw') l

theorem slots_replaceAll_enter (hw' : w'.subject = some k) {l : List LocalWork}
    (hl : slots k l = []) : slots k (replaceAll w w' l) = List.replicate (l.count w) w' :=
  filter_replaceAll_enter (by simpa using hw') hl

end Edits

/-! ## The combinations of frames and slots -/

/-- The frames and slots of a subject that belong together.

A call is off the stack with no slots, or on it with its two slots still reserved, with
both terminal records to be read, or with the dead reply alone. A submission is on the
stack with two slots while it is pending and with its report once it is rejected; a
one-way submission has a slot or a report and no frame. -/
def Paired : Subject → List OutgoingCall → List LocalWork → Prop
  | .call c, fs, ws =>
    (fs = [] ∧ ws = []) ∨
    (fs = [.Active c] ∧
      (ws = [.ReservedTerminal c, .ReservedTerminal c] ∨
        ws = [.TransactionComplete (some c), .DeadReply c] ∨ ws = [.DeadReply c]))
  | .submission t, fs, ws =>
    (fs = [] ∧ (ws = [] ∨ ws = [.PendingRemote t] ∨ ∃ r, ws = [.RejectedRemote t false r])) ∨
    (fs = [.Pending t] ∧ ws = [.PendingRemote t, .PendingRemote t]) ∨
    (fs = [.Rejected t] ∧ ∃ r, ws = [.RejectedRemote t true r])

/-- Every subject is in one of the combinations, and no submission beyond the counter has
been heard of. -/
structure Inv (s : Thread) : Prop where
  paired : ∀ k, Paired k (frames k s.outgoing) (slots k s.local_work)
  fresh : ∀ t : RemoteSubmission, s.next_remote_submission < t.serial →
    frames (.submission t) s.outgoing = [] ∧ slots (.submission t) s.local_work = []

variable {s s' : Thread} {memory : Bool} {r : Option (RemoteReplySubmission × CallToken)}
  {submission : RemoteReplySubmission}

/-- **How an operation keeps the invariant**: each subject either keeps its frames and
slots, or comes to a combination of the list; and no submission past the counter does. -/
theorem Inv.step (h : Inv s) (hnext : s.next_remote_submission ≤ s'.next_remote_submission)
    (hk : ∀ k,
      (frames k s'.outgoing = frames k s.outgoing ∧ slots k s'.local_work = slots k s.local_work) ∨
      (Paired k (frames k s'.outgoing) (slots k s'.local_work) ∧
        ∀ t, k = .submission t → t.serial ≤ s'.next_remote_submission)) : Inv s' := by
  refine ⟨fun k => ?_, fun t ht => ?_⟩
  · rcases hk k with ⟨hf, hw⟩ | ⟨hp, _⟩
    · rw [hf, hw]
      exact h.paired k
    · exact hp
  · rcases hk (.submission t) with ⟨hf, hw⟩ | ⟨_, hle⟩
    · rw [hf, hw]
      exact h.fresh t (by omega)
    · have := hle t rfl
      omega

/-- A submission with a slot has been handed out. -/
theorem Inv.serial_le (h : Inv s) {t : RemoteSubmission}
    (hw : w ∈ s.local_work) (hsub : w.subject = some (.submission t)) :
    t.serial ≤ s.next_remote_submission := by
  by_contra hlt
  have hmem := mem_slots.mpr ⟨hw, hsub⟩
  rw [(h.fresh t (by omega)).2] at hmem
  exact absurd hmem List.not_mem_nil

section

variable (h : Paired (.call c) (frames (.call c) s.outgoing) (slots (.call c) s.local_work))
include h

/-- A call with an entry on the stack is in one of the three combinations that have one. -/
theorem Paired.of_active (hc : .Active c ∈ s.outgoing) :
    frames (.call c) s.outgoing = [.Active c] ∧
      (slots (.call c) s.local_work = [.ReservedTerminal c, .ReservedTerminal c] ∨
        slots (.call c) s.local_work = [.TransactionComplete (some c), .DeadReply c] ∨
        slots (.call c) s.local_work = [.DeadReply c]) := by
  rcases h with ⟨hf, _⟩ | hp
  · have hmem : OutgoingCall.Active c ∈ frames (.call c) s.outgoing := mem_frames.mpr ⟨hc, rfl⟩
    rw [hf] at hmem
    exact absurd hmem List.not_mem_nil
  · exact hp

/-- A call without an entry on the stack has no slots. -/
theorem Paired.of_not_active (hc : .Active c ∉ s.outgoing) :
    frames (.call c) s.outgoing = [] ∧ slots (.call c) s.local_work = [] := by
  rcases h with hp | ⟨hf, _⟩
  · exact hp
  · have hmem : OutgoingCall.Active c ∈ frames (.call c) s.outgoing := by rw [hf]; simp
    exact absurd (mem_frames.mp hmem).1 hc

end

/-! ## Submissions to the registry -/

theorem Inv.commit (h : Inv s) {call : Option CallId}
    (hcall : ∀ c, call = some c → .Active c ∉ s.outgoing) : Inv (s.commit call) := by
  cases call with
  | none =>
    refine h.step le_rfl fun k => .inl ⟨rfl, ?_⟩
    simp [Thread.commit]
  | some c =>
    refine h.step le_rfl fun k => ?_
    by_cases hk : k = .call c
    · subst hk
      obtain ⟨hf, hw⟩ := (h.paired _).of_not_active (hcall c rfl)
      refine .inr ⟨.inr ?_, nofun⟩
      simp [Thread.commit, hf, hw]
    · refine .inl ⟨?_, ?_⟩ <;>
        simp [Thread.commit, Ne.symm hk]

/-! ## Submissions to the authority -/

theorem begin_remote_submission_ok
    (h : s.begin_remote_submission synchronous memory = (.ok token, s')) :
    token = ⟨s.next_remote_submission + 1⟩ ∧ s'.next_remote_submission = token.serial ∧
      s'.outgoing = s.outgoing ++ (if synchronous then [OutgoingCall.Pending token] else []) ∧
      s'.local_work = s.local_work ++
        (if synchronous then [LocalWork.PendingRemote token] else []) ++
        [LocalWork.PendingRemote token] := by
  unfold begin_remote_submission at h
  split at h
  · simp at h
  · next serial hserial =>
    rw [checked_add_eq_some] at hserial
    split at h
    · simp at h
    · cases h
      cases synchronous <;> simp [hserial.2]

section

variable (h : Inv s)
include h

theorem Inv.begin_remote_submission
    (hok : s.begin_remote_submission synchronous memory = (.ok token, s')) : Inv s' := by
  obtain ⟨htoken, hnext, hout, hwork⟩ := begin_remote_submission_ok hok
  have hserial : token.serial = s.next_remote_submission + 1 := by rw [htoken]
  refine h.step (by omega) fun k => ?_
  rw [hout, hwork]
  by_cases hk : k = .submission token
  · subst hk
    obtain ⟨hf, hw⟩ := h.fresh token (by omega)
    refine .inr ⟨?_, fun t ht => ?_⟩
    · cases synchronous
      · exact .inl (by simp [hf, hw])
      · exact .inr (.inl (by simp [hf, hw]))
    · rw [← Subject.submission.inj ht, hnext]
  · refine .inl ⟨?_, ?_⟩ <;> cases synchronous <;>
      simp [Ne.symm hk]

/-- A submission with one slot left has no frame, one with two is pending on the stack. -/
theorem Inv.of_count (token : RemoteSubmission) :
    (s.local_work.count (.PendingRemote token) = 1 →
      frames (.submission token) s.outgoing = [] ∧
        slots (.submission token) s.local_work = [.PendingRemote token]) ∧
    (s.local_work.count (.PendingRemote token) = 2 →
      frames (.submission token) s.outgoing = [.Pending token] ∧
        slots (.submission token) s.local_work = [.PendingRemote token, .PendingRemote token]) := by
  have hsub : (LocalWork.PendingRemote token).subject = some (.submission token) := rfl
  rw [← count_slots hsub]
  rcases h.paired (.submission token) with ⟨hf, hw | hw | ⟨r, hw⟩⟩ | ⟨hf, hw⟩ | ⟨hf, r, hw⟩ <;>
    simp [hf, hw]

theorem Inv.serial_le_of_count (token : RemoteSubmission)
    (hcount : 0 < s.local_work.count (.PendingRemote token)) :
    token.serial ≤ s.next_remote_submission :=
  h.serial_le (List.count_pos_iff.mp hcount) rfl

theorem Inv.commit_remote_submission {call : Option CallToken}
    (hcall : ∀ c, call = some c → .Active (.Remote c) ∉ s.outgoing)
    (hok : s.commit_remote_submission token call = (.ok (), s')) : Inv s' := by
  unfold Thread.commit_remote_submission at hok
  cases call with
  | none =>
    dsimp only at hok
    split at hok
    · next hcount =>
      obtain ⟨hf, hw⟩ := (h.of_count token).1 hcount.1
      have hserial := h.serial_le_of_count token (by rw [hcount.1]; decide)
      cases hok
      refine h.step le_rfl fun k => ?_
      by_cases hk : k = .submission token
      · -- the slot of a one-way submission turns into a completion about no entry
        subst hk
        refine Or.inr ⟨Or.inl ⟨hf, Or.inl ?_⟩, fun t ht => ?_⟩
        · rw [slots_replaceAll_leave (by simp) (by simp), hw]
          simp
        · rwa [← Subject.submission.inj ht]
      · exact Or.inl ⟨rfl, slots_replaceAll_other (by simpa using Ne.symm hk) (by simp) _⟩
    · simp at hok
  | some c =>
    dsimp only at hok
    split at hok
    · next hcount =>
      obtain ⟨hf, hw⟩ := (h.of_count token).2 hcount.1
      have hserial := h.serial_le_of_count token (by rw [hcount.1]; decide)
      obtain ⟨hfc, hwc⟩ := (h.paired _).of_not_active (hcall c rfl)
      have hpending : OutgoingCall.Pending token ∈ s.outgoing := by simpa using hcount.2
      cases hok
      refine h.step le_rfl fun k => ?_
      by_cases hk : k = .submission token
      · -- the submission leaves both lists
        subst hk
        refine Or.inr ⟨Or.inl ⟨?_, Or.inl ?_⟩, fun t ht => ?_⟩
        · rw [frames_replace_leave (by simp) (by simp), hf, List.erase_cons_head]
        · rw [slots_replaceAll_leave (by simp) (by simp), hw]
          simp
        · rwa [← Subject.submission.inj ht]
      · by_cases hkc : k = .call (.Remote c)
        · -- and the call comes to both
          subst hkc
          refine Or.inr ⟨Or.inr ⟨frames_replace_enter (by simp) hfc hpending, Or.inl ?_⟩, nofun⟩
          rw [slots_replaceAll_enter (by simp) hwc, hcount.1]
          rfl
        · exact Or.inl ⟨frames_replace_other (by simpa using Ne.symm hk)
            (by simpa using Ne.symm hkc) _,
            slots_replaceAll_other (by simpa using Ne.symm hk) (by simpa using Ne.symm hkc) _⟩
    · simp at hok

/-- The check of `abort` and `reject`, and the combination it finds. -/
theorem Inv.of_slots_match (hmatch : s.slots_match token = true) :
    token.serial ≤ s.next_remote_submission ∧
    ((s.outgoing.contains (.Pending token) = false ∧
        frames (.submission token) s.outgoing = [] ∧
        slots (.submission token) s.local_work = [.PendingRemote token]) ∨
      (s.outgoing.contains (.Pending token) = true ∧
        frames (.submission token) s.outgoing = [.Pending token] ∧
        slots (.submission token) s.local_work = [.PendingRemote token, .PendingRemote token])) := by
  simp only [slots_match, decide_eq_true_eq] at hmatch
  rcases hmatch with ⟨hcount, hout⟩ | ⟨hcount, hout⟩
  · refine ⟨h.serial_le_of_count token (by rw [hcount]; decide), ?_⟩
    exact .inl ⟨by simpa using hout, (h.of_count token).1 hcount⟩
  · refine ⟨h.serial_le_of_count token (by rw [hcount]; decide), ?_⟩
    exact .inr ⟨by simpa using hout, (h.of_count token).2 hcount⟩

theorem Inv.abort_remote_submission
    (hok : s.abort_remote_submission token = (.ok (), s')) : Inv s' := by
  unfold Thread.abort_remote_submission at hok
  split at hok
  · next hmatch =>
    obtain ⟨hserial, hcase⟩ := h.of_slots_match hmatch
    cases hok
    refine h.step le_rfl fun k => ?_
    rw [frames_erase]
    by_cases hk : k = .submission token
    · subst hk
      refine .inr ⟨.inl ⟨?_, .inl ?_⟩, fun t ht => ?_⟩
      · rcases hcase with ⟨_, hf, _⟩ | ⟨_, hf, _⟩ <;> simp [hf]
      · rw [slots_filter]
        rcases hcase with ⟨_, _, hw⟩ | ⟨_, _, hw⟩ <;> simp [hw]
      · rwa [← Subject.submission.inj ht]
    · refine .inl ⟨?_, slots_filter_ne (by simpa using Ne.symm hk) _⟩
      exact List.erase_of_not_mem fun hmem => hk (mem_frames.mp hmem).2.symm
  · simp at hok

theorem Inv.reject_remote_submission {reason : TransactionFailure}
    (hok : s.reject_remote_submission token reason = (.ok (), s')) : Inv s' := by
  unfold Thread.reject_remote_submission at hok
  split at hok
  · simp at hok
  · next hmatch =>
    obtain ⟨hserial, hcase⟩ := h.of_slots_match (by simpa using hmatch)
    cases hok
    refine h.step le_rfl fun k => ?_
    rw [slots_erase]
    by_cases hk : k = .submission token
    · subst hk
      refine .inr ⟨?_, fun t ht => ?_⟩
      · rw [slots_replace_same (by simp) (by simp), frames_replace_same (by simp) (by simp)]
        rcases hcase with ⟨hsync, hf, hw⟩ | ⟨hsync, hf, hw⟩
        · rw [hsync, hf, hw]
          exact .inl ⟨rfl, .inr (.inr ⟨reason, by simp⟩)⟩
        · rw [hsync, hf, hw]
          exact .inr (.inr ⟨by simp, reason, by simp⟩)
      · rwa [← Subject.submission.inj ht]
    · refine .inl ⟨frames_replace_other (by simpa using Ne.symm hk)
        (by simpa using Ne.symm hk) _, ?_⟩
      rw [slots_replace_other (by simpa using Ne.symm hk) (by simpa using Ne.symm hk)]
      refine List.erase_of_not_mem fun hmem => hk ?_
      exact (Option.some.inj (mem_slots.mp hmem).2).symm

/-! ## Replies

The slots of a reply are about no entry of the stack. -/

theorem Inv.submit_remote_reply {call : CallToken}
    (hok : s.submit_remote_reply call memory = (.ok r, s')) : Inv s' := by
  unfold Thread.submit_remote_reply at hok
  split at hok
  · simp at hok
  · next serial hserial =>
    rw [checked_add_eq_some] at hserial
    split at hok
    · simp at hok
    · cases hok
      refine h.step (by dsimp only; omega) fun k => .inl ⟨rfl, ?_⟩
      simp

theorem Inv.begin_remote_reply (hok : s.begin_remote_reply memory = (.ok r, s')) : Inv s' := by
  unfold Thread.begin_remote_reply at hok
  split at hok
  · exact h.submit_remote_reply hok
  · exact h.submit_remote_reply hok
  · cases hok
    exact h
  · simp at hok
  · simp at hok
  · simp at hok

theorem Inv.commit_remote_reply
    {call : CallToken} (hok : s.commit_remote_reply submission call = (.ok (), s')) : Inv s' := by
  unfold Thread.commit_remote_reply at hok
  split at hok
  · simp at hok
  · split at hok
    · simp at hok
    · cases hok
      exact h.step le_rfl fun k => .inl ⟨rfl, slots_replace_other (by simp) (by simp) _⟩

theorem Inv.abort_remote_reply
    {call : CallToken} (hok : s.abort_remote_reply submission call = (.ok (), s')) : Inv s' := by
  unfold Thread.abort_remote_reply at hok
  split at hok
  · simp at hok
  · dsimp only at hok
    split at hok
    · simp at hok
    · cases hok
      exact h.step le_rfl fun k => .inl ⟨rfl, slots_filter_ne (by simp) _⟩

end

/-! ## Terminal records of a call -/

/-- The call on top of the stack, taken apart. -/
theorem last_outgoing_eq_some (h : s.last_outgoing = some c) :
    ∃ below, s.outgoing = below ++ [.Active c] := by
  unfold last_outgoing at h
  split at h
  · next call hlast =>
    cases h
    exact List.getLast?_eq_some_iff.mp hlast
  · simp at h
  · simp at h
  · simp at h

/-- Popping the entry of `c`: its frames go, those of every other subject stay. -/
theorem Inv.pop (h : Inv s) (hc : s.last_outgoing = some c) :
    frames (.call c) s.outgoing.dropLast = [] ∧
      ∀ k, k ≠ .call c → frames k s.outgoing.dropLast = frames k s.outgoing := by
  obtain ⟨below, hout⟩ := last_outgoing_eq_some hc
  have hframes := ((h.paired (.call c)).of_active (by rw [hout]; simp)).1
  rw [hout] at hframes ⊢
  rw [List.dropLast_concat]
  refine ⟨?_, fun k hk => ?_⟩
  · rw [frames_append] at hframes
    simpa using hframes
  · simp [Ne.symm hk]

theorem Inv.finish_outgoing (h : Inv s) (hdead : .DeadReply c ∉ s.local_work)
    (hok : s.finish_outgoing c = (.ok (), s')) : Inv s' := by
  unfold Thread.finish_outgoing at hok
  split at hok
  · simp at hok
  · next hlast =>
    have hlast : s.last_outgoing = some c := by simpa using hlast
    obtain ⟨below, hout⟩ := last_outgoing_eq_some hlast
    obtain ⟨hgone, hstay⟩ := h.pop hlast
    cases hok
    refine h.step le_rfl fun k => ?_
    by_cases hk : k = .call c
    · subst hk
      refine .inr ⟨.inl ⟨hgone, ?_⟩, nofun⟩
      -- without a dead reply the slots are still the two reserved ones
      have hnone : LocalWork.DeadReply c ∉ slots (.call c) s.local_work :=
        fun hmem => hdead (mem_slots.mp hmem).1
      rw [slots_filter]
      rcases ((h.paired (.call c)).of_active (by rw [hout]; simp)).2 with hw | hw | hw
      · rw [hw]
        simp
      · rw [hw] at hnone
        simp at hnone
      · rw [hw] at hnone
        simp at hnone
    · exact .inl ⟨hstay k hk, slots_filter_ne (by simpa using Ne.symm hk) _⟩

theorem Inv.enqueue_dead_reply (h : Inv s)
    (hok : s.enqueue_dead_reply c = (.ok (), s')) : Inv s' := by
  unfold Thread.enqueue_dead_reply at hok
  split at hok
  · simp at hok
  · next hactive =>
    split at hok
    · simp at hok
    · next hcount =>
      have hactive : OutgoingCall.Active c ∈ s.outgoing := by simpa using hactive
      have hcount : s.local_work.count (.ReservedTerminal c) = 2 := by simpa using hcount
      obtain ⟨hf, hw⟩ := (h.paired _).of_active hactive
      cases hok
      refine h.step le_rfl fun k => ?_
      by_cases hk : k = .call c
      · subst hk
        refine .inr ⟨.inr ⟨hf, .inr (.inl ?_)⟩, nofun⟩
        rw [slots_replace_same (by simp) (by simp), slots_replace_same (by simp) (by simp)]
        rw [← count_slots (k := .call c) (by simp)] at hcount
        rcases hw with hw | hw | hw
        · rw [hw, List.replace_cons_self, replace_cons_ne (by simp), List.replace_cons_self]
        · rw [hw] at hcount
          simp at hcount
        · rw [hw] at hcount
          simp at hcount
      · refine .inl ⟨rfl, ?_⟩
        rw [slots_replace_other (by simpa using Ne.symm hk) (by simpa using Ne.symm hk),
          slots_replace_other (by simpa using Ne.symm hk) (by simpa using Ne.symm hk)]

theorem Inv.enqueue_dead_replies (h : Inv s) {calls : List CallId}
    (hok : s.enqueue_dead_replies calls = (.ok (), s')) : Inv s' := by
  induction calls generalizing s with
  | nil =>
    cases hok
    exact h
  | cons _ _ ih =>
    unfold Thread.enqueue_dead_replies at hok
    split at hok
    · simp at hok
    · next s'' hfirst => exact ih (h.enqueue_dead_reply hfirst) hok

/-! ## Reading -/

/-- The read reports a rejected synchronous submission: the buffer has room for a word, and
the first visible record is such a report. -/
def Reports (s : Thread) (output : ℕ) (t : RemoteSubmission) : Prop :=
  4 ≤ output ∧ ∃ r, s.local_work.find? s.visible = some (.RejectedRemote t true r)

/-- A record taken out of the queue leaves the slots of its own subject only. -/
theorem slots_take_out
    (hw : w.subject ≠ some k) : slots k (before ++ after) = slots k (before ++ w :: after) := by
  rw [slots_append, slots_append, slots_cons, if_neg hw]

/-- The slots of the subject of a record, around that record. -/
theorem slots_around (hw : w.subject = some k) :
    slots k (before ++ w :: after) = slots k before ++ w :: slots k after := by
  rw [slots_append, slots_cons, if_pos hw]

/-- A read either leaves the thread as it is, or takes out the first visible record. -/
theorem read_local_work_cases (s : Thread) (output : ℕ) :
    ((output < 4 ∨ s.local_work.find? s.visible = none) ∧ (s.read_local_work output).2 = s) ∨
    (4 ≤ output ∧ ∃ w before after, s.local_work.find? s.visible = some w ∧
      s.local_work = before ++ w :: after ∧
      (∀ x ∈ before, s.visible x = false) ∧ s.visible w = true ∧
      (s.read_local_work output).2 = { s with
        local_work := before ++ after
        outgoing := match w with
          | .DeadReply _ => s.outgoing.dropLast
          | _ => s.outgoing }) := by
  unfold read_local_work
  split
  · next hnone =>
    refine .inl ⟨?_, rfl⟩
    rcases hnone with hempty | hshort
    · rw [List.isEmpty_iff.mp hempty]
      exact .inr rfl
    · exact .inl hshort
  · next hroom =>
    have hroom : 4 ≤ output := by
      by_contra hlt
      exact hroom (.inr (by omega))
    cases hfind : s.local_work.find? s.visible with
    | none => exact .inl ⟨.inr rfl, rfl⟩
    | some w =>
      obtain ⟨before, after, hsplit, hbefore, hw, herase⟩ := find_eraseP hfind
      refine .inr ⟨hroom, w, before, after, rfl, hsplit, hbefore, hw, ?_⟩
      cases w <;> simp [herase]

theorem Inv.read_local_work (h : Inv s) {output : ℕ}
    (hreport : ∀ t, ¬ Reports s output t) : Inv (s.read_local_work output).2 := by
  rcases read_local_work_cases s output with
    ⟨_, heq⟩ | ⟨hroom, w, before, after, hfind, hsplit, hbefore, hw, heq⟩
  · rwa [heq]
  rw [heq]
  cases w with
  | TransactionComplete call =>
    cases call with
    | none =>
      refine h.step le_rfl fun k => .inl ⟨rfl, ?_⟩
      rw [hsplit]
      exact slots_take_out (by simp)
    | some c =>
      have hlast : s.last_outgoing = some c := by simpa [visible] using hw
      obtain ⟨below, hout⟩ := last_outgoing_eq_some hlast
      obtain ⟨hf, hslots⟩ := (h.paired (.call c)).of_active (by rw [hout]; simp)
      refine h.step le_rfl fun k => ?_
      by_cases hk : k = .call c
      · -- the completion comes first of the two terminal records
        subst hk
        rw [hsplit, slots_around (by simp)] at hslots
        refine .inr ⟨.inr ⟨hf, .inr (.inr ?_)⟩, nofun⟩
        show slots _ (before ++ after) = _
        rw [slots_append]
        rcases hslots with hslots | hslots | hslots
        · rcases around_of_pair hslots with ⟨_, heq, _⟩ | ⟨_, heq, _⟩ <;> simp at heq
        · rcases around_of_pair hslots with ⟨hb, _, ha⟩ | ⟨_, heq, _⟩
          · rw [hb, ha, List.nil_append]
          · simp at heq
        · have := (around_of_singleton hslots).2.1
          simp at this
      · refine .inl ⟨rfl, ?_⟩
        rw [hsplit]
        exact slots_take_out (by simpa using Ne.symm hk)
  | DeadReply c =>
    have hlast : s.last_outgoing = some c := by simpa [visible] using hw
    obtain ⟨below, hout⟩ := last_outgoing_eq_some hlast
    obtain ⟨hf, hslots⟩ := (h.paired (.call c)).of_active (by rw [hout]; simp)
    obtain ⟨hgone, hstay⟩ := h.pop hlast
    refine h.step le_rfl fun k => ?_
    by_cases hk : k = .call c
    · -- a completion still unread would be visible, and before the dead reply
      subst hk
      have hunread : .TransactionComplete (some c) ∉ before := by
        intro hmem
        have := hbefore _ hmem
        simp [visible, hlast] at this
      rw [hsplit, slots_around (by simp)] at hslots
      refine .inr ⟨.inl ⟨hgone, ?_⟩, nofun⟩
      show slots _ (before ++ after) = _
      rw [slots_append]
      rcases hslots with hslots | hslots | hslots
      · rcases around_of_pair hslots with ⟨_, heq, _⟩ | ⟨_, heq, _⟩ <;> simp at heq
      · rcases around_of_pair hslots with ⟨_, heq, _⟩ | ⟨hb, _, _⟩
        · simp at heq
        · have hmem : LocalWork.TransactionComplete (some c) ∈ slots (.call c) before := by
            rw [hb]; simp
          exact absurd (mem_slots.mp hmem).1 hunread
      · obtain ⟨hb, _, ha⟩ := around_of_singleton hslots
        rw [hb, ha, List.nil_append]
    · refine .inl ⟨hstay k hk, ?_⟩
      rw [hsplit]
      exact slots_take_out (by simpa using Ne.symm hk)
  | RejectedRemote t synchronous r =>
    cases synchronous with
    | true => exact absurd ⟨hroom, r, hfind⟩ (hreport t)
    | false =>
      have hmem : LocalWork.RejectedRemote t false r ∈ s.local_work := by rw [hsplit]; simp
      have hserial := h.serial_le hmem rfl
      refine h.step le_rfl fun k => ?_
      by_cases hk : k = .submission t
      · subst hk
        have hp := h.paired (.submission t)
        rw [hsplit, slots_around (by simp)] at hp
        refine .inr ⟨.inl ?_, fun t' ht => ?_⟩
        · show frames _ s.outgoing = [] ∧ (slots _ (before ++ after) = [] ∨ _)
          rw [slots_append]
          rcases hp with ⟨hf, hp | hp | ⟨r', hp⟩⟩ | ⟨_, hp⟩ | ⟨_, r', hp⟩
          · simp at hp
          · have := (around_of_singleton hp).2.1
            simp at this
          · obtain ⟨hb, _, ha⟩ := around_of_singleton hp
            exact ⟨hf, .inl (by rw [hb, ha, List.nil_append])⟩
          · rcases around_of_pair hp with ⟨_, heq, _⟩ | ⟨_, heq, _⟩ <;> simp at heq
          · have := (around_of_singleton hp).2.1
            simp at this
        · rwa [← Subject.submission.inj ht]
      · refine .inl ⟨rfl, ?_⟩
        rw [hsplit]
        exact slots_take_out (by simpa using Ne.symm hk)
  | ReservedTerminal | PendingRemote | PendingRemoteReply => simp [visible] at hw

/-! ## Runs of a thread -/

/-- The operations, with the arguments of one call. `submit` is `reserve_submission`
followed by `commit` of the reservation. -/
inductive Op
  | submit (synchronous memory : Bool) (call : Option CallId)
  | begin_remote_submission (synchronous memory : Bool)
  | commit_remote_submission (token : RemoteSubmission) (call : Option CallToken)
  | abort_remote_submission (token : RemoteSubmission)
  | reject_remote_submission (token : RemoteSubmission) (reason : TransactionFailure)
  | begin_remote_reply (memory : Bool)
  | commit_remote_reply (submission : RemoteReplySubmission) (call : CallToken)
  | abort_remote_reply (submission : RemoteReplySubmission) (call : CallToken)
  | accept_incoming (call : CallId)
  | finish_incoming (call : CallId)
  | cancel_incoming (call : CallId)
  | enqueue_dead_reply (call : CallId)
  | finish_outgoing (call : CallId)
  | read_local_work (output : ℕ)
  | fail_remote_authority

/-- Whether an operation succeeded, and the thread it leaves. -/
def outcome {R : Type} (r : Except Error R × Thread) : Except Error Unit × Thread :=
  (r.1.map fun _ => (), r.2)

/-- One operation of a run. -/
def perform (s : Thread) : Op → Except Error Unit × Thread
  | .submit synchronous memory call =>
    match reserve_submission synchronous memory with
    | .error e => (.error e, s)
    | .ok () => (.ok (), s.commit call)
  | .begin_remote_submission synchronous memory =>
    outcome (s.begin_remote_submission synchronous memory)
  | .commit_remote_submission token call => s.commit_remote_submission token call
  | .abort_remote_submission token => s.abort_remote_submission token
  | .reject_remote_submission token reason => s.reject_remote_submission token reason
  | .begin_remote_reply memory => outcome (s.begin_remote_reply memory)
  | .commit_remote_reply submission call => s.commit_remote_reply submission call
  | .abort_remote_reply submission call => s.abort_remote_reply submission call
  | .accept_incoming call => (.ok (), s.accept_incoming call)
  | .finish_incoming call => s.finish_incoming call
  | .cancel_incoming call => (.ok (), (s.cancel_incoming call).2)
  | .enqueue_dead_reply call => s.enqueue_dead_reply call
  | .finish_outgoing call => s.finish_outgoing call
  | .read_local_work output => (.ok (), (s.read_local_work output).2)
  | .fail_remote_authority => s.fail_remote_authority

/-- What callers keep to: a call handed in is not one the thread already waits for (a fresh
token never is), and a call is not finished once its dead reply is enqueued. -/
def Legal (s : Thread) : Op → Prop
  | .submit _ _ (some call) => .Active call ∉ s.outgoing
  | .commit_remote_submission _ (some call) => .Active (.Remote call) ∉ s.outgoing
  | .finish_outgoing call => .DeadReply call ∉ s.local_work
  | _ => True

/-- A step of a run: the operation is called as callers do, and returns no error. -/
def Step (s : Thread) (op : Op) (t : Thread) : Prop :=
  Legal s op ∧ s.perform op = (.ok (), t)

/-- The operation is a read that reports the rejection of the synchronous submission `t`. -/
def ReportsRejection (s : Thread) (op : Op) (t : RemoteSubmission) : Prop :=
  ∃ output, op = .read_local_work output ∧ Reports s output t

theorem outcome_eq_ok {R : Type} {r : Except Error R × Thread} {t : Thread}
    (h : outcome r = (.ok (), t)) : ∃ a, r = (.ok a, t) := by
  obtain ⟨r, s⟩ := r
  cases r with
  | error => simp [outcome, Except.map] at h
  | ok a => exact ⟨a, by simpa [outcome, Except.map] using h⟩

/-- Operations on `incoming` only are none of the invariant's business. -/
theorem Inv.of_incoming (h : Inv s) (incoming : List IncomingCall) :
    Inv { s with incoming := incoming } :=
  ⟨h.paired, h.fresh⟩

theorem Inv.cancel_incoming (h : Inv s) (call : CallId) :
    Inv (s.cancel_incoming call).2 := by
  unfold Thread.cancel_incoming
  split
  · exact h
  · dsimp only
    split
    · exact h.of_incoming _
    all_goals exact h

/-- **One step.** Every operation keeps the invariant, but for the read that reports a
rejected synchronous submission. -/
theorem step_keeps_inv {t : Thread} {op : Op} (h : Inv s) (hstep : Step s op t)
    (hreport : ∀ r, ¬ ReportsRejection s op r) : Inv t := by
  obtain ⟨hlegal, hok⟩ := hstep
  cases op with
  | submit =>
    simp only [perform, reserve_submission] at hok
    split at hok
    · simp at hok
    · cases hok
      refine h.commit fun c hc => ?_
      subst hc
      exact hlegal
  | begin_remote_submission =>
    obtain ⟨token, hok⟩ := outcome_eq_ok hok
    exact h.begin_remote_submission hok
  | commit_remote_submission =>
    refine h.commit_remote_submission (fun c hc => ?_) hok
    subst hc
    exact hlegal
  | abort_remote_submission => exact h.abort_remote_submission hok
  | reject_remote_submission => exact h.reject_remote_submission hok
  | begin_remote_reply =>
    obtain ⟨r, hok⟩ := outcome_eq_ok hok
    exact h.begin_remote_reply hok
  | commit_remote_reply => exact h.commit_remote_reply hok
  | abort_remote_reply => exact h.abort_remote_reply hok
  | accept_incoming =>
    cases hok
    exact h.of_incoming _
  | finish_incoming =>
    simp only [perform, Thread.finish_incoming] at hok
    split at hok
    · simp at hok
    · cases hok
      exact h.of_incoming _
  | cancel_incoming call =>
    cases hok
    exact h.cancel_incoming call
  | enqueue_dead_reply => exact h.enqueue_dead_reply hok
  | finish_outgoing => exact h.finish_outgoing hlegal hok
  | read_local_work output =>
    cases hok
    exact h.read_local_work fun r hr => hreport r ⟨output, rfl, hr⟩
  | fail_remote_authority => exact h.enqueue_dead_replies hok

/-- A new thread has no frames and no slots. -/
theorem new_inv {id : UInt64} (h : new id = some s) : Inv s := by
  unfold new at h
  split at h
  · cases h
    refine ⟨fun k => ?_, fun t _ => ⟨rfl, rfl⟩⟩
    cases k with
    | call => exact .inl ⟨rfl, rfl⟩
    | submission => exact .inl ⟨rfl, .inl rfl⟩
  · simp at h

/-! ## The stack invariant -/

/-- The stack and the slots match: what the source promises of the two lists. -/
structure Matched (s : Thread) : Prop where
  /-- An active call has its two reserved slots, or what is left of its two records. -/
  active : ∀ c, .Active c ∈ s.outgoing →
    slots (.call c) s.local_work = [.ReservedTerminal c, .ReservedTerminal c] ∨
      slots (.call c) s.local_work = [.TransactionComplete (some c), .DeadReply c] ∨
      slots (.call c) s.local_work = [.DeadReply c]
  pending : ∀ t, .Pending t ∈ s.outgoing →
    slots (.submission t) s.local_work = [.PendingRemote t, .PendingRemote t]
  rejected : ∀ t, .Rejected t ∈ s.outgoing →
    ∃ r, slots (.submission t) s.local_work = [.RejectedRemote t true r]
  /-- No record names a call that is not on the stack. -/
  call_named : ∀ w ∈ s.local_work, ∀ c, w.subject = some (.call c) → .Active c ∈ s.outgoing
  /-- A synchronous report names a rejected entry of the stack. -/
  report_named : ∀ t r, .RejectedRemote t true r ∈ s.local_work → .Rejected t ∈ s.outgoing
  /-- A submission that is not on the stack is one-way and has one slot at most. -/
  slot_named : ∀ t, 1 < s.local_work.count (.PendingRemote t) → .Pending t ∈ s.outgoing

/-- The combinations are what the source promises. -/
theorem Inv.matched (h : Inv s) : Matched s where
  active c hc := ((h.paired _).of_active hc).2
  pending t ht := by
    have hmem : OutgoingCall.Pending t ∈ frames (.submission t) s.outgoing :=
      mem_frames.mpr ⟨ht, rfl⟩
    rcases h.paired (.submission t) with ⟨hf, _⟩ | ⟨_, hw⟩ | ⟨hf, _⟩
    · rw [hf] at hmem
      exact absurd hmem List.not_mem_nil
    · exact hw
    · rw [hf] at hmem
      simp at hmem
  rejected t ht := by
    have hmem : OutgoingCall.Rejected t ∈ frames (.submission t) s.outgoing :=
      mem_frames.mpr ⟨ht, rfl⟩
    rcases h.paired (.submission t) with ⟨hf, _⟩ | ⟨hf, _⟩ | ⟨_, hw⟩
    · rw [hf] at hmem
      exact absurd hmem List.not_mem_nil
    · rw [hf] at hmem
      simp at hmem
    · exact hw
  call_named w hw c hc := by
    by_contra hout
    have hmem := mem_slots.mpr ⟨hw, hc⟩
    rw [((h.paired _).of_not_active hout).2] at hmem
    exact absurd hmem List.not_mem_nil
  report_named t r hr := by
    have hmem : LocalWork.RejectedRemote t true r ∈ slots (.submission t) s.local_work :=
      mem_slots.mpr ⟨hr, rfl⟩
    rcases h.paired (.submission t) with ⟨_, hw | hw | ⟨r', hw⟩⟩ | ⟨_, hw⟩ | ⟨hf, _⟩
    · rw [hw] at hmem
      exact absurd hmem List.not_mem_nil
    · rw [hw] at hmem
      simp at hmem
    · rw [hw] at hmem
      simp at hmem
    · rw [hw] at hmem
      simp at hmem
    · have hframe : OutgoingCall.Rejected t ∈ frames (.submission t) s.outgoing := by
        rw [hf]; simp
      exact (mem_frames.mp hframe).1
  slot_named t ht := by
    rw [← count_slots (k := .submission t) (by simp)] at ht
    rcases h.paired (.submission t) with ⟨_, hw | hw | ⟨r', hw⟩⟩ | ⟨hf, _⟩ | ⟨_, r', hw⟩
    · rw [hw] at ht
      simp at ht
    · rw [hw] at ht
      simp at ht
    · rw [hw] at ht
      simp at ht
    · have hframe : OutgoingCall.Pending t ∈ frames (.submission t) s.outgoing := by
        rw [hf]; simp
      exact (mem_frames.mp hframe).1
    · rw [hw] at ht
      simp at ht

/-- The read that reports a rejection takes the report and leaves the entry. -/
theorem report_leaves_frame {op : Op} {t : RemoteSubmission} (h : Matched s)
    (hrep : ReportsRejection s op t) (hstep : Step s op s') :
    .Rejected t ∈ s'.outgoing ∧ slots (.submission t) s'.local_work = [] := by
  obtain ⟨output, rfl, hroom, r, hfind⟩ := hrep
  have hs' : (s.read_local_work output).2 = s' := (Prod.mk.inj hstep.2).2
  rcases read_local_work_cases s output with
    ⟨hnone | hnone, _⟩ | ⟨_, w, before, after, hfind', hsplit, _, hw, heq⟩
  · omega
  · rw [hnone] at hfind
    cases hfind
  · rw [hfind] at hfind'
    cases hfind'
    have hlast : s.outgoing.getLast? = some (.Rejected t) := by simpa [visible] using hw
    have hout : OutgoingCall.Rejected t ∈ s.outgoing := List.mem_of_getLast? hlast
    obtain ⟨r', hslots⟩ := h.rejected t hout
    rw [hsplit, slots_around (by simp)] at hslots
    obtain ⟨hb, _, ha⟩ := around_of_singleton hslots
    rw [← hs', heq]
    refine ⟨hout, ?_⟩
    show slots _ (before ++ after) = []
    rw [slots_append, hb, ha, List.nil_append]

theorem step_functional (s : Thread) (op : Op) (t t' : Thread) (h : Step s op t)
    (h' : Step s op t') : t = t' :=
  (Prod.mk.inj (h.2.symm.trans h'.2)).2

/-- **The stack invariant over whole runs.** Along a run of a new thread the stack and the
slots match in every state, and no `Rejected` entry survives the read of its report, exactly
when no read of the run reports the rejection of a synchronous submission. -/
theorem stack_matched_iff_no_rejection_read {id : UInt64} {s₀ s : Thread} {ops : List Op}
    (hnew : new id = some s₀) (hrun : Run Step s₀ ops s) :
    ((∀ fs u, fs <+: ops → Run Step s₀ fs u → Matched u) ∧
      (∀ fs op u v t, fs ++ [op] <+: ops → Run Step s₀ fs u → Step u op v →
        ReportsRejection u op t → .Rejected t ∉ v.outgoing)) ↔
    ∀ fs op u t, fs ++ [op] <+: ops → Run Step s₀ fs u → ¬ ReportsRejection u op t := by
  constructor
  · rintro ⟨hmatched, hgone⟩ fs op u t hpre hu hrep
    obtain ⟨v, hv⟩ := hrun.through hpre
    obtain ⟨u', hu', hstep⟩ := hv.last
    obtain rfl := hu.functional step_functional hu'
    have hfs : fs <+: ops := (List.prefix_append fs [op]).trans hpre
    exact hgone fs op u v t hpre hu hstep hrep
      (report_leaves_frame (hmatched fs u hfs hu) hrep hstep).1
  · intro hnone
    refine ⟨fun fs u hfs hu => ?_, fun fs op u v t hpre hu _ hrep => ?_⟩
    · -- the invariant, along the prefixes of the run
      have hinv : fs <+: ops → Inv u := by
        refine Run.history (fun fs u => fs <+: ops → Inv u) (fun _ => new_inv hnew) ?_ hu
        intro gs v op w hv ih hstep hpre
        have hgs : gs <+: ops := (List.prefix_append gs [op]).trans hpre
        exact step_keeps_inv (ih hgs) hstep fun t => hnone gs op v t hpre hv
      exact (hinv hfs).matched
    · exact absurd hrep (hnone fs op u t hpre hu)

/-- A call whose dead reply is enqueued: no step of it is a read, so none reports a rejection. -/
theorem stack_matched_through_dead_reply :
    ∃ s₀ s ops, new 1 = some s₀ ∧ Run Step s₀ ops s ∧
      ops = [.submit true true (some (.Local 1)), .enqueue_dead_reply (.Local 1)] ∧
      s.local_work = [.TransactionComplete (some (.Local 1)), .DeadReply (.Local 1)] ∧
      ∀ fs u, fs <+: ops → Run Step s₀ fs u → Matched u := by
  have hrun : Run Step ⟨.None, 1, [], [], [], 0⟩
      [.submit true true (some (.Local 1)), .enqueue_dead_reply (.Local 1)]
      ⟨.None, 1, [.Active (.Local 1)], [],
        [.TransactionComplete (some (.Local 1)), .DeadReply (.Local 1)], 0⟩ :=
    ((Run.nil _).snoc ⟨List.not_mem_nil, rfl⟩).snoc ⟨trivial, rfl⟩
  refine ⟨_, _, _, rfl, hrun, rfl, rfl, ?_⟩
  refine ((@stack_matched_iff_no_rejection_read 1 _ _ _ rfl hrun).mpr ?_).1
  rintro fs op u t ⟨gs, hgs⟩ _ ⟨output, rfl, _⟩
  -- no label of the run is a read
  have hmem : Op.read_local_work output ∈
      [.submit true true (some (.Local 1)), .enqueue_dead_reply (.Local 1)] := by
    rw [← hgs]
    simp
  simp at hmem

/-- A rejected submission: the read returns its report, and the entry stays on the stack
with no record left that would ever take it off. -/
theorem rejected_frame_survives_read :
    ∃ s₀ s, new 1 = some s₀ ∧
      Run Step s₀ [.begin_remote_submission true true,
        .reject_remote_submission ⟨1⟩ .FailedReply, .read_local_work 4] s ∧
      s.outgoing = [.Rejected ⟨1⟩] ∧ s.local_work = [] ∧ ¬ Matched s := by
  have hrun : Run Step ⟨.None, 1, [], [], [], 0⟩ [.begin_remote_submission true true,
      .reject_remote_submission ⟨1⟩ .FailedReply, .read_local_work 4]
      ⟨.None, 1, [.Rejected ⟨1⟩], [], [], 1⟩ :=
    (((Run.nil _).snoc ⟨trivial, rfl⟩).snoc ⟨trivial, rfl⟩).snoc ⟨trivial, rfl⟩
  refine ⟨_, _, rfl, hrun, rfl, rfl, fun h => ?_⟩
  obtain ⟨r, hr⟩ := h.rejected ⟨1⟩ List.mem_cons_self
  cases hr

end Thread

end DarwinArt.Binder
