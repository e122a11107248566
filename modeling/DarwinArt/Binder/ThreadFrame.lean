/-
What the operations of a thread leave alone.

The registry keeps facts about the threads of its connections between its own steps: the
identity of a thread, the call on top of its stack, and the entry and the two slots of a
call that waits for its reply. Submissions and replies through the authority, reads and
dead calls happen in between. The lemmas here say what of those facts survives them,
whatever the operation returns.
-/
import DarwinArt.Binder.ThreadStack

set_option autoImplicit false

namespace DarwinArt.Binder.Thread

open Lib Lib.ListEdit

open Thread

/-! ## The stack operations, whatever they return -/

theorem finish_outgoing_cases (s : Thread) (c : CallId) :
    (s.last_outgoing ≠ some c ∧ s.finish_outgoing c = (.error .InvalidOutgoingReply, s)) ∨
    (s.last_outgoing = some c ∧ s.finish_outgoing c = (.ok (), { s with
      outgoing := s.outgoing.dropLast
      local_work := s.local_work.filter (fun work => work ≠ .ReservedTerminal c) })) := by
  unfold finish_outgoing
  by_cases h : s.last_outgoing = some c
  · exact .inr ⟨h, if_neg (by simpa using h)⟩
  · exact .inl ⟨h, if_pos h⟩

theorem enqueue_dead_reply_cases (s : Thread) (c : CallId) :
    (s.enqueue_dead_reply c).2 = s ∨
    (s.enqueue_dead_reply c).2 = { s with
      local_work := (s.local_work.replace (.ReservedTerminal c)
        (.TransactionComplete (some c))).replace (.ReservedTerminal c) (.DeadReply c) } := by
  unfold enqueue_dead_reply
  split
  · exact .inl rfl
  · split
    · exact .inl rfl
    · exact .inr rfl

/-- What an operation leaves of the thread, whatever it returns. -/
inductive Left (s : Thread) : Op → Thread → Prop
  /-- An operation that is refused, or finds nothing to do. -/
  | same {op : Op} : Left s op s
  | submit {synchronous memory : Bool} {call : Option CallId} :
      Left s (.submit synchronous memory call) (s.commit call)
  | begin_remote_submission {synchronous memory : Bool} {serial : ℕ}
      (hserial : s.next_remote_submission ≤ serial) :
      Left s (.begin_remote_submission synchronous memory) { s with
        next_remote_submission := serial
        outgoing := s.outgoing ++ (if synchronous then [.Pending ⟨serial⟩] else [])
        local_work := s.local_work ++ (if synchronous then [.PendingRemote ⟨serial⟩] else []) ++
          [.PendingRemote ⟨serial⟩] }
  | commit_call {token : RemoteSubmission} {c : CallToken}
      (hcount : s.local_work.count (.PendingRemote token) = 2 ∧
        s.outgoing.contains (.Pending token)) :
      Left s (.commit_remote_submission token (some c)) { s with
        outgoing := s.outgoing.replace (.Pending token) (.Active (.Remote c))
        local_work := replaceAll (.PendingRemote token) (.ReservedTerminal (.Remote c))
          s.local_work }
  | commit_oneway {token : RemoteSubmission} :
      Left s (.commit_remote_submission token none) { s with
        local_work := replaceAll (.PendingRemote token) (.TransactionComplete none) s.local_work }
  | abort_remote_submission {token : RemoteSubmission} :
      Left s (.abort_remote_submission token) { s with
        local_work := s.local_work.filter (fun work => work ≠ .PendingRemote token)
        outgoing := s.outgoing.erase (.Pending token) }
  | reject_remote_submission {token : RemoteSubmission} {reason : TransactionFailure} {b : Bool} :
      Left s (.reject_remote_submission token reason) { s with
        local_work := (s.local_work.replace (.PendingRemote token)
          (.RejectedRemote token b reason)).erase (.PendingRemote token)
        outgoing := s.outgoing.replace (.Pending token) (.Rejected token) }
  | begin_remote_reply {memory : Bool} {incoming : List IncomingCall} :
      Left s (.begin_remote_reply memory) { s with
        next_remote_submission := s.next_remote_submission + 1
        incoming := incoming
        local_work := s.local_work ++ [.PendingRemoteReply ⟨s.next_remote_submission + 1⟩] }
  | commit_remote_reply {submission : RemoteReplySubmission} {call : CallToken}
      {incoming : List IncomingCall} :
      Left s (.commit_remote_reply submission call) { s with
        incoming := incoming
        local_work := s.local_work.replace (.PendingRemoteReply submission)
          (.TransactionComplete none) }
  | abort_remote_reply {submission : RemoteReplySubmission} {call : CallToken}
      {incoming : List IncomingCall} :
      Left s (.abort_remote_reply submission call) { s with
        incoming := incoming
        local_work := s.local_work.filter (fun work => work ≠ .PendingRemoteReply submission) }
  | accept_incoming {call : CallId} : Left s (.accept_incoming call) (s.accept_incoming call)
  | finish_incoming {call : CallId} {incoming : List IncomingCall} :
      Left s (.finish_incoming call) { s with incoming := incoming }
  | cancel_incoming {call : CallId} {incoming : List IncomingCall} :
      Left s (.cancel_incoming call) { s with incoming := incoming }
  | enqueue_dead_reply {call : CallId} :
      Left s (.enqueue_dead_reply call) { s with
        local_work := (s.local_work.replace (.ReservedTerminal call)
          (.TransactionComplete (some call))).replace (.ReservedTerminal call) (.DeadReply call) }
  | finish_outgoing {call : CallId} (hlast : s.last_outgoing = some call) :
      Left s (.finish_outgoing call) { s with
        outgoing := s.outgoing.dropLast
        local_work := s.local_work.filter (fun work => work ≠ .ReservedTerminal call) }
  | read_local_work {output : ℕ} {w : LocalWork} {before after : List LocalWork}
      {outgoing : List OutgoingCall} (hroom : 4 ≤ output)
      (hout : outgoing = match w with
        | .DeadReply _ => s.outgoing.dropLast
        | _ => s.outgoing)
      (hfind : s.local_work.find? s.visible = some w)
      (hsplit : s.local_work = before ++ w :: after) (hw : s.visible w = true) :
      Left s (.read_local_work output) { s with
        local_work := before ++ after
        outgoing := outgoing }
  | fail_remote_authority : Left s .fail_remote_authority s.fail_remote_authority.2

/-- A reply moves `incoming`, and takes a slot that is about no call. -/
theorem begin_remote_reply_left (s : Thread) (memory : Bool) :
    Left s (.begin_remote_reply memory) (s.begin_remote_reply memory).2 := by
  have hsubmit : ∀ call, Left s (.begin_remote_reply memory) (s.submit_remote_reply call memory).2 := by
    intro call
    unfold submit_remote_reply
    split
    · exact .same
    next serial hserial =>
    obtain ⟨-, rfl⟩ := checked_add_eq_some.mp hserial
    split
    · exact .same
    · exact .begin_remote_reply
  unfold begin_remote_reply
  split
  · exact hsubmit _
  · exact hsubmit _
  all_goals exact .same

/-- **Every operation leaves one of these.** -/
theorem perform_left (s : Thread) (op : Op) : Left s op (s.perform op).2 := by
  cases op with
  | submit =>
    simp only [perform, reserve_submission]
    split
    · exact .same
    · exact .submit
  | begin_remote_submission synchronous memory =>
    show Left s _ (s.begin_remote_submission synchronous memory).2
    unfold begin_remote_submission
    split
    · exact .same
    next serial hserial =>
    obtain ⟨-, rfl⟩ := checked_add_eq_some.mp hserial
    split
    · exact .same
    · have h : Left s (.begin_remote_submission synchronous memory) _ :=
        .begin_remote_submission (Nat.le_succ s.next_remote_submission)
      cases synchronous <;> simpa using h
  | commit_remote_submission _ call =>
    simp only [perform, commit_remote_submission]
    cases call with
    | none =>
      dsimp only
      split
      · exact .commit_oneway
      · exact .same
    | some =>
      dsimp only
      split
      · next hcount => exact .commit_call hcount
      · exact .same
  | abort_remote_submission =>
    simp only [perform, abort_remote_submission]
    split <;> exact .abort_remote_submission
  | reject_remote_submission =>
    simp only [perform, reject_remote_submission]
    split
    · exact .same
    · exact .reject_remote_submission
  | begin_remote_reply memory => exact begin_remote_reply_left s memory
  | commit_remote_reply =>
    simp only [perform, commit_remote_reply]
    split
    · exact .same
    · split
      · exact .same
      · exact .commit_remote_reply
  | abort_remote_reply =>
    simp only [perform, abort_remote_reply]
    split
    · exact .same
    · split <;> exact .abort_remote_reply
  | accept_incoming => exact .accept_incoming
  | finish_incoming =>
    simp only [perform, finish_incoming]
    split
    · exact .same
    · exact .finish_incoming
  | cancel_incoming =>
    simp only [perform, cancel_incoming]
    split
    · exact .same
    · split
      · exact .cancel_incoming
      all_goals exact .same
  | enqueue_dead_reply call =>
    simp only [perform]
    rcases enqueue_dead_reply_cases s call with h | h
    · rw [h]
      exact .same
    · rw [h]
      exact .enqueue_dead_reply
  | finish_outgoing call =>
    simp only [perform]
    rcases finish_outgoing_cases s call with ⟨-, h⟩ | ⟨hlast, h⟩
    · rw [h]
      exact .same
    · rw [h]
      exact .finish_outgoing hlast
  | read_local_work output =>
    simp only [perform]
    rcases read_local_work_cases s output with
      ⟨-, h⟩ | ⟨hroom, w, _, _, hfind, hsplit, -, hw, h⟩
    · rw [h]
      exact .same
    · rw [h]
      exact .read_local_work hroom rfl hfind hsplit hw
  | fail_remote_authority => exact .fail_remote_authority

/-! ## Operations outside the registry -/

/-- The thread operations that happen outside the registry: submissions and replies through
the authority, the death of their targets, reads of local work, and the end of an incoming
call. The others are parts of the registry's own operations. -/
def outside : Op → Bool
  | .begin_remote_submission _ _ | .commit_remote_submission _ _ | .abort_remote_submission _
  | .reject_remote_submission _ _ | .begin_remote_reply _ | .commit_remote_reply _ _
  | .abort_remote_reply _ _ | .finish_incoming _ | .cancel_incoming _ | .read_local_work _
  | .enqueue_dead_reply (.Remote _) => true
  | .submit _ _ _ | .accept_incoming _ | .enqueue_dead_reply (.Local _) | .finish_outgoing _
  | .fail_remote_authority => false

/-! ## Calls of the registry

The calls a registry routes are `CallId.Local`. -/

/-- The entries and records of the registry's own calls, and the thread's identity, are as
they were. -/
structure KeepsLocal (s s' : Thread) : Prop where
  id_eq : s'.id = s.id
  frames_eq : ∀ n, frames (.call (.Local n)) s'.outgoing = frames (.call (.Local n)) s.outgoing
  slots_eq : ∀ n, slots (.call (.Local n)) s'.local_work = slots (.call (.Local n)) s.local_work

theorem KeepsLocal.refl (s : Thread) : KeepsLocal s s :=
  ⟨rfl, fun _ => rfl, fun _ => rfl⟩

/-! ## A call that waits -/

/-- The thread says of `c` what it said before. -/
structure Same (c : CallId) (s s' : Thread) : Prop where
  frames_eq : frames (.call c) s'.outgoing = frames (.call c) s.outgoing
  slots_eq : slots (.call c) s'.local_work = slots (.call c) s.local_work

theorem Same.refl (c : CallId) (s : Thread) : Same c s s := ⟨rfl, rfl⟩

variable {s s' : Thread} {c : CallId} {op : Op}

/-- Popping an entry keeps the frames of every other subject. -/
theorem frames_dropLast_other {k : Subject} (hc : s.last_outgoing = some c) (hk : k ≠ .call c) :
    frames k s.outgoing.dropLast = frames k s.outgoing := by
  obtain ⟨_, hout⟩ := last_outgoing_eq_some hc
  rw [hout, List.dropLast_concat]
  simp [Ne.symm hk]

/-- Submitting another call, or a one-way transaction. -/
theorem commit_same (s : Thread) {call : Option CallId} (hne : call ≠ some c) :
    Same c s (s.commit call) := by
  cases call with
  | none => exact ⟨rfl, by simp [commit]⟩
  | some c' =>
    have hne : c' ≠ c := fun heq => hne (by rw [heq])
    exact ⟨by simp [commit, hne], by simp [commit, hne]⟩

theorem commit_none_same (s : Thread) (c : CallId) : Same c s (s.commit none) :=
  commit_same s (by simp)

/-- The operation is about another call, or about none. -/
def spares (c : CallId) : Op → Prop
  | .submit _ _ call => call ≠ some c
  | .commit_remote_submission _ call => ∀ c', call = some c' → .Remote c' ≠ c
  | .enqueue_dead_reply c' | .finish_outgoing c' => c' ≠ c
  | .read_local_work _ | .fail_remote_authority => False
  | _ => True

/-- **An operation about another call leaves this one alone.** -/
theorem perform_same (s : Thread) (hop : spares c op) :
    Same c s (s.perform op).2 := by
  have h := perform_left s op
  generalize (s.perform op).2 = t at h
  cases h with
  | same | accept_incoming | finish_incoming | cancel_incoming => exact ⟨rfl, rfl⟩
  | submit => exact commit_same s hop
  | @begin_remote_submission synchronous =>
    refine ⟨?_, ?_⟩ <;> cases synchronous <;> simp
  | commit_call =>
    have hne := hop _ rfl
    exact ⟨frames_replace_other (by simp) (by simpa using hne) _,
      slots_replaceAll_other (by simp) (by simpa using hne) _⟩
  | commit_oneway => exact ⟨rfl, slots_replaceAll_other (by simp) (by simp) _⟩
  | abort_remote_submission =>
    refine ⟨?_, slots_filter_ne (by simp) _⟩
    rw [frames_erase]
    refine List.erase_of_not_mem fun hmem => ?_
    exact absurd (mem_frames.mp hmem).2 (by simp)
  | reject_remote_submission =>
    refine ⟨frames_replace_other (by simp) (by simp) _, ?_⟩
    rw [slots_erase, slots_replace_other (by simp) (by simp)]
    refine List.erase_of_not_mem fun hmem => ?_
    exact absurd (mem_slots.mp hmem).2 (by simp)
  | begin_remote_reply => exact ⟨rfl, by simp⟩
  | commit_remote_reply => exact ⟨rfl, slots_replace_other (by simp) (by simp) _⟩
  | abort_remote_reply => exact ⟨rfl, slots_filter_ne (by simp) _⟩
  | @enqueue_dead_reply c' =>
    have hne : c' ≠ c := hop
    refine ⟨rfl, ?_⟩
    rw [slots_replace_other (by simpa using hne) (by simpa using hne),
      slots_replace_other (by simpa using hne) (by simpa using hne)]
  | @finish_outgoing c' hlast =>
    have hne : c' ≠ c := hop
    refine ⟨frames_dropLast_other hlast ?_, slots_filter_ne ?_ _⟩
    · simpa using Ne.symm hne
    · simpa using hne
  | read_local_work => exact hop.elim
  | fail_remote_authority => exact hop.elim

/-- Finishing another call. -/
theorem finish_outgoing_same (s : Thread) {c' : CallId} (hne : c' ≠ c) :
    Same c s (s.finish_outgoing c').2 := by
  have hsame : Same c s (s.perform (.finish_outgoing c')).2 := perform_same s hne
  exact hsame

/-- The death of another call. -/
theorem enqueue_dead_reply_same (s : Thread) {c' : CallId} (hne : c' ≠ c) :
    Same c s (s.enqueue_dead_reply c').2 := by
  have hsame : Same c s (s.perform (.enqueue_dead_reply c')).2 := perform_same s hne
  exact hsame

theorem enqueue_dead_reply_keeps_local (s : Thread) (c : CallToken) :
    KeepsLocal s (s.enqueue_dead_reply (.Remote c)).2 := by
  have hsame : ∀ n, Same (.Local n) s (s.enqueue_dead_reply (.Remote c)).2 :=
    fun n => enqueue_dead_reply_same s (by simp)
  refine ⟨?_, fun n => (hsame n).frames_eq, fun n => (hsame n).slots_eq⟩
  rcases enqueue_dead_reply_cases s (.Remote c) with h | h <;> rw [h]

theorem KeepsLocal.same (h : KeepsLocal s s') (n : ℕ) : Same (.Local n) s s' :=
  ⟨h.frames_eq n, h.slots_eq n⟩

theorem outside_id (hop : outside op = true) (s : Thread) :
    (s.perform op).2.id = s.id := by
  have h := perform_left s op
  generalize (s.perform op).2 = t at h
  cases h with
  | submit | fail_remote_authority => cases hop
  | _ => rfl

/-- The thread waits for the reply to `c`: the call is on its stack, and both its slots are
reserved. -/
def Waits (c : CallId) (s : Thread) : Prop :=
  frames (.call c) s.outgoing = [.Active c] ∧
    slots (.call c) s.local_work = [.ReservedTerminal c, .ReservedTerminal c]

/-- The thread has not heard of `c`. -/
def Unheard (c : CallId) (s : Thread) : Prop :=
  frames (.call c) s.outgoing = [] ∧ slots (.call c) s.local_work = []

theorem Same.waits (h : Same c s s') (hw : Waits c s) :
    Waits c s' :=
  ⟨h.frames_eq.trans hw.1, h.slots_eq.trans hw.2⟩

theorem Same.unheard (h : Same c s s') (hu : Unheard c s) :
    Unheard c s' :=
  ⟨h.frames_eq.trans hu.1, h.slots_eq.trans hu.2⟩

/-- No record of `c` can be read. -/
def Quiet (c : CallId) (s : Thread) : Prop :=
  ∀ w ∈ slots (.call c) s.local_work, s.visible w = false

theorem Waits.quiet (h : Waits c s) : Quiet c s := by
  intro w hw
  rw [h.2] at hw
  obtain rfl : w = .ReservedTerminal c := by simpa using hw
  rfl

theorem Unheard.quiet (h : Unheard c s) : Quiet c s := by
  intro w hw
  rw [h.2] at hw
  cases hw

/-- A read takes no record of a call whose records are not visible. -/
theorem read_local_work_same (h : Quiet c s) (output : ℕ) :
    Same c s (s.read_local_work output).2 := by
  rcases read_local_work_cases s output with
    ⟨_, heq⟩ | ⟨-, w, _, _, -, hsplit, -, hw, heq⟩
  · rw [heq]
    exact Same.refl c s
  · have hsub : w.subject ≠ some (.call c) := by
      intro hsub
      have hquiet := h w (mem_slots.mpr ⟨by rw [hsplit]; simp, hsub⟩)
      rw [hw] at hquiet
      cases hquiet
    rw [heq]
    refine ⟨?_, ?_⟩
    · cases w with
      | DeadReply c' =>
        have hlast : s.last_outgoing = some c' := by simpa [visible] using hw
        refine frames_dropLast_other hlast ?_
        rintro hk
        exact hsub (by simpa using hk.symm)
      | _ => rfl
    · rw [hsplit]
      exact slots_take_out hsub

theorem outside_same {n : ℕ} (h : Quiet (.Local n) s)
    (hop : outside op = true) : Same (.Local n) s (s.perform op).2 := by
  by_cases hread : ∃ output, op = .read_local_work output
  · obtain ⟨output, rfl⟩ := hread
    exact read_local_work_same h output
  · refine perform_same s ?_
    cases op with
    | read_local_work output => exact absurd ⟨output, rfl⟩ hread
    | enqueue_dead_reply call =>
      cases call with
      | Local => cases hop
      | Remote => exact nofun
    | commit_remote_submission => exact fun _ _ => nofun
    | submit | accept_incoming | finish_outgoing | fail_remote_authority => cases hop
    | _ => trivial

/-- A thread that submits a call it had not heard of waits for it. -/
theorem Unheard.commit (h : Unheard c s) :
    Waits c (s.commit (some c)) := by
  obtain ⟨hframes, hslots⟩ := h
  exact ⟨by simp [Thread.commit, hframes], by simp [Thread.commit, hslots]⟩

/-- **The dead reply of a waiting call is always accepted.** -/
theorem Waits.enqueue_dead_reply_ok (h : Waits c s) :
    (s.enqueue_dead_reply c).1 = .ok () := by
  have hactive : OutgoingCall.Active c ∈ s.outgoing := by
    have hmem : OutgoingCall.Active c ∈ frames (.call c) s.outgoing := by rw [h.1]; simp
    exact (mem_frames.mp hmem).1
  have hcount : s.local_work.count (.ReservedTerminal c) = 2 := by
    rw [← count_slots (k := .call c) (by simp), h.2]
    simp
  unfold enqueue_dead_reply
  rw [if_neg (by simpa using hactive), if_neg (by simpa using hcount)]

/-! ## The top of the stack -/

theorem last_outgoing_eq_some_iff :
    s.last_outgoing = some c ↔ ∃ below, s.outgoing = below ++ [.Active c] := by
  refine ⟨last_outgoing_eq_some, ?_⟩
  rintro ⟨_, hout⟩
  simp [last_outgoing, hout]

/-- The call on top depends on the stack alone. -/
theorem last_outgoing_congr (h : s'.outgoing = s.outgoing) :
    s'.last_outgoing = s.last_outgoing := by
  simp only [last_outgoing, h]

/-- The read returns a dead reply, and so pops the stack. -/
def ReadsDeadReply (s : Thread) (output : ℕ) : Prop :=
  4 ≤ output ∧ ∃ c, s.local_work.find? s.visible = some (.DeadReply c)

/-- **The call on top stays on top**, but for a new synchronous submission and the read of a
dead reply. -/
theorem outside_keeps_top (hop : outside op = true) (hc : s.last_outgoing = some c)
    (hbegin : ∀ memory, op ≠ .begin_remote_submission true memory)
    (hread : ∀ output, op = .read_local_work output → ¬ ReadsDeadReply s output) :
    (s.perform op).2.last_outgoing = some c := by
  obtain ⟨below, hout⟩ := last_outgoing_eq_some hc
  -- an edit of a pending entry is below the top
  have hreplace : ∀ t e, (s.outgoing.replace (.Pending t) e) =
      below.replace (.Pending t) e ++ [.Active c] := by
    intro t e
    rw [hout]
    exact replace_append_ne (by simp) below
  have h := perform_left s op
  generalize (s.perform op).2 = t at h
  cases h with
  | @begin_remote_submission synchronous memory =>
    cases synchronous with
    | true => exact absurd rfl (hbegin memory)
    | false => exact (last_outgoing_congr (by simp)).trans hc
  | commit_call | reject_remote_submission =>
    exact last_outgoing_eq_some_iff.mpr ⟨_, hreplace _ _⟩
  | @abort_remote_submission token =>
    refine last_outgoing_eq_some_iff.mpr ⟨below.erase (.Pending token), ?_⟩
    rw [hout]
    exact erase_append_ne (by simp) below
  | @read_local_work output w _ _ _ hroom hpop hfind =>
    cases w with
    | DeadReply c' => exact absurd ⟨hroom, c', hfind⟩ (hread output rfl)
    | _ => exact (last_outgoing_congr hpop).trans hc
  | same | commit_oneway | begin_remote_reply | commit_remote_reply | abort_remote_reply
  | finish_incoming | cancel_incoming | enqueue_dead_reply =>
    exact (last_outgoing_congr rfl).trans hc
  | submit | accept_incoming | finish_outgoing | fail_remote_authority => cases hop

end DarwinArt.Binder.Thread
