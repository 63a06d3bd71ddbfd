import WODrive.Fibre.Host
import WODrive.Library.Runs

/-!
# Matching responses to requests (fibre/python/fibre/protocol.py)

Any number of threads call `Channel.remote_endpoint_operation` with `expect_ack` on one
channel, while the receiver thread processes the responses that the transport delivers, in
any order, late, twice or not at all. A response of the model knows which operation it
answers; the code only sees its sequence number.

The numbers come from a counter of 15 bits, but one of their bits is hardwired to 1
(`number_of_run`). So two operations that are outstanding at the same time can have the same
number long before the counter wraps (`responses_not_matched`: the first and the 129th). The
dictionaries hold one entry for a number, and the `finally` block removes the two entries of
an operation one after the other, without a lock. `responses_matched`: as long as every
operation registers a number that is free, and no late response arrives while its number is
in use again, the numbers of the outstanding operations are distinct, no operation touches an
entry of another one, and every operation that returns has a response to its own request.
-/

namespace WODrive.Fibre.Host

/-- A response, with the operation whose request it answers. -/
structure Response (ι π : Type) where
  request : ι
  payload : π

/-- Where a thread is in `remote_endpoint_operation`. -/
inductive Phase (ι π : Type) where
  | idle
  /-- It has a number, and has not registered it. -/
  | numbered (seqNo : SeqNo)
  /-- At the head of the loop. -/
  | sending (seqNo : SeqNo) (attempt : Nat)
  /-- It waits for its event. -/
  | waiting (seqNo : SeqNo) (attempt : Nat)
  /-- At the `finally` block, with what is returned, or with an exception. -/
  | leaving (seqNo : SeqNo) (result : Option (Response ι π))
  /-- Between the two statements of the `finally` block. -/
  | left (seqNo : SeqNo) (result : Option (Response ι π))
  | done (result : Option (Response ι π))

/-- Where the receiver thread is in `process_packet`. -/
inductive Receiver (ι π : Type) where
  | idle
  /-- It has got the event `ackSignal` from `_expected_acks`. -/
  | matched (seqNo : SeqNo) (response : Response ι π) (ackSignal : ι)
  /-- It has stored the response. -/
  | stored (ackSignal : ι)

/-- The channel and the threads. An operation creates one event, so it is named like it. -/
structure State (ι π : Type) where
  channel : Channel ι (Response ι π)
  ops : ι → Phase ι π
  /-- the number under which a request has been sent -/
  sent : ι → Option SeqNo
  /-- whether the event is set -/
  acked : ι → Bool
  receiver : Receiver ι π

variable {ι π : Type}

namespace State

/-- A new channel. -/
def init : State ι π := ⟨.init, fun _ => .idle, fun _ => none, fun _ => false, .idle⟩

/-- The thread of an operation moves on. -/
def goto [DecidableEq ι] (s : State ι π) (i : ι) (phase : Phase ι π) : State ι π :=
  { s with ops := Function.update s.ops i phase }

end State

/-- What happens on a channel. -/
inductive Event (ι π : Type) where
  | number (i : ι)
  | register (i : ι)
  | send (i : ι)
  | sendFails (i : ι)
  | timeout (i : ι)
  | returns (i : ι)
  | broken (i : ι)
  | giveUp (i : ι)
  | popAck (i : ι)
  | popResponse (i : ι)
  | deliver (response : Response ι π)
  | store
  | set

/-- The steps of the threads. -/
inductive Step [DecidableEq ι] (s : State ι π) : Event ι π → State ι π → Prop where
  /-- A number is generated, under the lock. -/
  | number {i : ι} (h : s.ops i = .idle) : Step s (.number i)
      ({ s with channel := s.channel.nextSeqNo }.goto i (.numbered s.channel.nextSeqNo.seqNo))
  | register {i : ι} {n : SeqNo} (h : s.ops i = .numbered n) : Step s (.register i)
      ({ s with channel := s.channel.expectAck n i }.goto i (.sending n 0))
  | send {i : ι} {n : SeqNo} {attempt : Nat} (h : s.ops i = .sending n attempt)
      (hlt : attempt < sendAttempts) : Step s (.send i)
      ({ s with sent := Function.update s.sent i (some n) }.goto i (.waiting n attempt))
  /-- The packet could not be sent. -/
  | sendFails {i : ι} {n : SeqNo} {attempt : Nat} (h : s.ops i = .sending n attempt)
      (hlt : attempt < sendAttempts) : Step s (.sendFails i) (s.goto i (.sending n (attempt + 1)))
  | timeout {i : ι} {n : SeqNo} {attempt : Nat} (h : s.ops i = .waiting n attempt)
      (hevent : s.acked i = false) : Step s (.timeout i) (s.goto i (.sending n (attempt + 1)))
  | returns {i : ι} {n : SeqNo} {attempt : Nat} {r : Response ι π}
      (h : s.ops i = .waiting n attempt) (hevent : s.acked i = true)
      (hr : s.channel.responses n = some r) : Step s (.returns i)
      ({ s with channel := s.channel.popResponse n }.goto i (.leaving n (some r)))
  /-- There is no response to return (`KeyError`). -/
  | returnsNothing {i : ι} {n : SeqNo} {attempt : Nat} (h : s.ops i = .waiting n attempt)
      (hevent : s.acked i = true) (hr : s.channel.responses n = none) :
      Step s (.returns i) (s.goto i (.leaving n none))
  | broken {i : ι} {n : SeqNo} {attempt : Nat} (h : s.ops i = .waiting n attempt)
      (hevent : s.acked i = false) : Step s (.broken i) (s.goto i (.leaving n none))
  | giveUp {i : ι} {n : SeqNo} {attempt : Nat} (h : s.ops i = .sending n attempt)
      (hge : sendAttempts ≤ attempt) : Step s (.giveUp i) (s.goto i (.leaving n none))
  | popAck {i j : ι} {n : SeqNo} {result : Option (Response ι π)}
      (h : s.ops i = .leaving n result) (hack : s.channel.expectedAcks n = some j) :
      Step s (.popAck i) ({ s with channel := s.channel.popAck n }.goto i (.left n result))
  /-- The entry of the operation is gone (`KeyError`). -/
  | popNothing {i : ι} {n : SeqNo} {result : Option (Response ι π)}
      (h : s.ops i = .leaving n result) (hack : s.channel.expectedAcks n = none) :
      Step s (.popAck i) (s.goto i (.done none))
  | popResponse {i : ι} {n : SeqNo} {result : Option (Response ι π)}
      (h : s.ops i = .left n result) :
      Step s (.popResponse i) ({ s with channel := s.channel.popResponse n }.goto i (.done result))
  /-- A response arrives, with the number of its request and the bit of a response. -/
  | deliver {r : Response ι π} {n : SeqNo} {ackSignal : ι} (hidle : s.receiver = .idle)
      (hsent : s.sent r.request = some n)
      (hack : s.channel.expectedAcks ((n ||| 0x8000) &&& 0x7fff) = some ackSignal) :
      Step s (.deliver r)
        { s with receiver := .matched ((n ||| 0x8000) &&& 0x7fff) r ackSignal }
  | deliverUnexpected {r : Response ι π} {n : SeqNo} (hidle : s.receiver = .idle)
      (hsent : s.sent r.request = some n)
      (hack : s.channel.expectedAcks ((n ||| 0x8000) &&& 0x7fff) = none) :
      Step s (.deliver r) s
  | store {r : Response ι π} {n : SeqNo} {ackSignal : ι}
      (h : s.receiver = .matched n r ackSignal) : Step s .store
        { s with channel := s.channel.storeResponse n r, receiver := .stored ackSignal }
  | set {ackSignal : ι} (h : s.receiver = .stored ackSignal) : Step s .set
        { s with acked := Function.update s.acked ackSignal true, receiver := .idle }

/-! ## What is claimed of the channel -/

/-- The number of an operation that may have entries under it. -/
def Phase.outstanding : Phase ι π → Option SeqNo
  | .sending n _ => some n
  | .waiting n _ => some n
  | .leaving n _ => some n
  | .left n _ => some n
  | _ => none

/-- What an operation returned. -/
def Phase.result : Phase ι π → Option (Response ι π)
  | .done result => result
  | _ => none

/-- The numbers of the outstanding operations are distinct, and what an operation returned
is a response to its request. -/
structure Correct (s : State ι π) : Prop where
  distinct : ∀ i j n, (s.ops i).outstanding = some n → (s.ops j).outstanding = some n → i = j
  results : ∀ i r, (s.ops i).result = some r → r.request = i

/-- The step overwrites or removes an entry of a dictionary that is there for another
operation. -/
inductive Clobbers (s : State ι π) : Event ι π → Prop where
  | register {i j : ι} {n : SeqNo} (h : s.ops i = .numbered n)
      (hack : s.channel.expectedAcks n = some j) (hj : j ≠ i) : Clobbers s (.register i)
  | returns {i : ι} {n : SeqNo} {attempt : Nat} {r : Response ι π}
      (h : s.ops i = .waiting n attempt) (hr : s.channel.responses n = some r)
      (hi : r.request ≠ i) : Clobbers s (.returns i)
  | popAck {i j : ι} {n : SeqNo} {result : Option (Response ι π)}
      (h : s.ops i = .leaving n result) (hack : s.channel.expectedAcks n = some j)
      (hj : j ≠ i) : Clobbers s (.popAck i)
  | popResponse {i : ι} {n : SeqNo} {result : Option (Response ι π)} {r : Response ι π}
      (h : s.ops i = .left n result) (hr : s.channel.responses n = some r)
      (hi : r.request ≠ i) : Clobbers s (.popResponse i)
  | store {n : SeqNo} {r r' : Response ι π} {ackSignal : ι}
      (h : s.receiver = .matched n r ackSignal) (hr : s.channel.responses n = some r')
      (hi : r'.request ≠ r.request) : Clobbers s .store

/-- The number that the `k`-th operation gets. -/
def numberOf (k : Nat) : SeqNo := BitVec.ofNat 16 (k % 2 ^ 15) ||| 0x80

/-- The number of an operation, from the time it has got one. -/
def Phase.number : Phase ι π → Option SeqNo
  | .numbered n => some n
  | phase => phase.outstanding

/-- Whether an operation gets its number. -/
def Event.isNumber : Event ι π → Bool
  | .number _ => true
  | _ => false

/-- Fewer than `2 ^ 15` operations have begun and not ended. -/
def FewOutstanding (s : State ι π) : Prop :=
  ∃ is : List ι, is.length < 2 ^ 15 ∧
    ∀ i, i ∈ is ∨ s.ops i = .idle ∨ ∃ result, s.ops i = .done result

/-- Nothing on the channel belongs to this number, and no operation is about to remove the
second one of its entries. -/
structure Free (s : State ι π) (n : SeqNo) : Prop where
  ack : s.channel.expectedAcks n = none
  response : s.channel.responses n = none
  receiver : ∀ r ackSignal, s.receiver ≠ .matched n r ackSignal
  left : ∀ i result, s.ops i ≠ .left n result

/-- The steps that do not run into the defect: a number is only registered if it is free,
and a response to an operation does not arrive while another one has its number. -/
def Safe (s : State ι π) : Event ι π → Prop
  | .register i => ∀ n, s.ops i = .numbered n → Free s n
  | .deliver r => ∀ n ackSignal, s.sent r.request = some n →
      s.channel.expectedAcks ((n ||| 0x8000) &&& 0x7fff) = some ackSignal → ackSignal = r.request
  | _ => True

/-! ## Runs of safe steps -/

/-- What an operation is about to return, or has returned. -/
def Phase.answer : Phase ι π → Option (Response ι π)
  | .leaving _ result => result
  | .left _ result => result
  | .done result => result
  | _ => none

/-- The number of an operation whose event is registered. -/
def Phase.registered : Phase ι π → Option SeqNo
  | .sending n _ => some n
  | .waiting n _ => some n
  | .leaving n _ => some n
  | _ => none

theorem Phase.outstanding_of_registered {phase : Phase ι π} {n : SeqNo}
    (h : phase.registered = some n) : phase.outstanding = some n := by
  cases phase <;> first | exact h | cases h

/-- An operation is only left out of the registered ones between its two removals. -/
theorem Phase.registered_or_left {phase : Phase ι π} {n : SeqNo}
    (h : phase.outstanding = some n) : phase.registered = some n ∨ ∃ r, phase = .left n r := by
  cases phase with
  | left n' result =>
    cases h
    exact .inr ⟨result, rfl⟩
  | _ => exact .inl h

/-- The invariant of the safe runs. -/
structure Matched (s : State ι π) : Prop where
  ack : ∀ n i, s.channel.expectedAcks n = some i ↔ (s.ops i).registered = some n
  distinct : ∀ i j n, (s.ops i).outstanding = some n → (s.ops j).outstanding = some n → i = j
  response : ∀ n r, s.channel.responses n = some r →
    ∀ i, (s.ops i).outstanding = some n → r.request = i
  receiver : ∀ n r ackSignal, s.receiver = .matched n r ackSignal →
    (∀ i, (s.ops i).outstanding = some n → i = r.request) ∧
      ∀ r', s.channel.responses n = some r' → r'.request = r.request
  answer : ∀ i r, (s.ops i).answer = some r → r.request = i

namespace Matched

variable {s : State ι π}

theorem init : Matched (State.init : State ι π) :=
  ⟨fun _ _ => ⟨nofun, nofun⟩, nofun, nofun, nofun, nofun⟩

theorem correct (h : Matched s) : Correct s := by
  refine ⟨h.distinct, fun i r hr => h.answer i r ?_⟩
  cases hop : s.ops i with
  | done result =>
    rw [hop] at hr
    exact hr
  | _ =>
    rw [hop] at hr
    cases hr

/-- A step after which there are fewer numbers in use, and fewer responses. -/
theorem shrink {t : State ι π} (h : Matched s)
    (hack : ∀ n i, t.channel.expectedAcks n = some i ↔ (t.ops i).registered = some n)
    (hout : ∀ i n, (t.ops i).outstanding = some n → (s.ops i).outstanding = some n)
    (hresponses : ∀ n r, t.channel.responses n = some r → s.channel.responses n = some r)
    (hreceiver : t.receiver = s.receiver)
    (hanswer : ∀ i r, (t.ops i).answer = some r → r.request = i) : Matched t := by
  refine ⟨hack, fun i j n hi hj => h.distinct i j n (hout i n hi) (hout j n hj),
    fun n r hr i hi => h.response n r (hresponses n r hr) i (hout i n hi),
    fun n r a hrec => ?_, hanswer⟩
  rw [hreceiver] at hrec
  obtain ⟨hown, hold⟩ := h.receiver n r a hrec
  exact ⟨fun i hi => hown i (hout i n hi), fun r' hr' => hold r' (hresponses n r' hr')⟩

/-- Fewer responses. -/
theorem popResponse (h : Matched s) (n : SeqNo) :
    Matched { s with channel := s.channel.popResponse n } := by
  refine h.shrink h.ack (fun _ _ hi => hi) (fun n' r hr => ?_) rfl h.answer
  by_cases hn : n' = n
  · subst hn
    have hnone : (s.channel.popResponse n').responses n' = none := Function.update_self ..
    exact absurd (hnone.symm.trans hr) nofun
  · have hsame : (s.channel.popResponse n).responses n' = s.channel.responses n' :=
      Function.update_of_ne hn ..
    exact hsame.symm.trans hr

/-- A response to the operation whose event is registered. -/
theorem deliver {r : Response ι π} {n : SeqNo} (h : Matched s)
    (hack : s.channel.expectedAcks n = some r.request) :
    Matched { s with receiver := .matched n r r.request } := by
  have hn := Phase.outstanding_of_registered ((h.ack n r.request).mp hack)
  refine ⟨h.ack, h.distinct, h.response, ?_, h.answer⟩
  rintro n' r' a ⟨⟩
  exact ⟨fun i hi => h.distinct i _ n hi hn, fun r' hr' => h.response n r' hr' r.request hn⟩

theorem store {r : Response ι π} {n : SeqNo} {ackSignal : ι} (h : Matched s)
    (hrec : s.receiver = .matched n r ackSignal) :
    Matched { s with channel := s.channel.storeResponse n r, receiver := .stored ackSignal } := by
  refine ⟨h.ack, h.distinct, fun n' r' hr' j hj => ?_, nofun, h.answer⟩
  by_cases hn : n' = n
  · subst hn
    have hsome : (s.channel.storeResponse n' r).responses n' = some r := Function.update_self ..
    cases Option.some.inj (hsome.symm.trans hr')
    exact ((h.receiver n' r ackSignal hrec).1 j hj).symm
  · have hsame : (s.channel.storeResponse n r).responses n' = s.channel.responses n' :=
      Function.update_of_ne hn ..
    exact h.response n' r' (hsame.symm.trans hr') j hj

/-- No safe step touches an entry of another operation. -/
theorem not_clobbers {e : Event ι π} (h : Matched s) (hsafe : Safe s e) : ¬ Clobbers s e := by
  intro hc
  cases hc with
  | register hop hack _ => exact absurd ((hsafe _ hop).ack.symm.trans hack) nofun
  | returns hop hr hi => exact hi (h.response _ _ hr _ (by rw [hop]; rfl))
  | popAck hop hack hj =>
    have hout := Phase.outstanding_of_registered ((h.ack _ _).mp hack)
    exact hj (h.distinct _ _ _ hout (by rw [hop]; rfl))
  | popResponse hop hr hi => exact hi (h.response _ _ hr _ (by rw [hop]; rfl))
  | store hrec hr hi => exact hi ((h.receiver _ _ _ hrec).2 _ hr)

end Matched

theorem safe_register {s : State ι π} {i : ι} {n : SeqNo} (h : s.ops i = .numbered n)
    (hfree : Free s n) : Safe s (.register i) := by
  intro n' h'
  cases h.symm.trans h'
  exact hfree

theorem safe_deliver {s : State ι π} {r : Response ι π} {n : SeqNo}
    (hsent : s.sent r.request = some n)
    (hack : s.channel.expectedAcks ((n ||| 0x8000) &&& 0x7fff) = some r.request) :
    Safe s (.deliver r) := by
  intro n' ackSignal hsent' hack'
  cases hsent.symm.trans hsent'
  exact Option.some.inj (hack'.symm.trans hack)

/-! ### Steps of the operations -/

section Threads

variable [DecidableEq ι]

theorem goto_self (s : State ι π) (i : ι) (phase : Phase ι π) : (s.goto i phase).ops i = phase :=
  Function.update_self ..

theorem goto_other (s : State ι π) {i j : ι} (phase : Phase ι π) (h : j ≠ i) :
    (s.goto i phase).ops j = s.ops j := Function.update_of_ne h ..

/-- What an operation does after the thread of one has moved on. -/
theorem goto_iff (s : State ι π) (i j : ι) (phase : Phase ι π) (P : Phase ι π → Prop) :
    P ((s.goto i phase).ops j) ↔ j = i ∧ P phase ∨ j ≠ i ∧ P (s.ops j) :=
  update_iff P

/-- An operation that moves on is between its two removals only if that is where it goes. -/
theorem update_ne_left {ops : ι → Phase ι π} {n : SeqNo} (h : ∀ j result, ops j ≠ .left n result)
    {i : ι} {phase : Phase ι π} (hphase : ∀ result, phase ≠ .left n result) (j : ι)
    (result : Option (Response ι π)) : Function.update ops i phase j ≠ .left n result := by
  intro hj
  rcases update_cases hj with ⟨-, hj⟩ | ⟨-, hj⟩
  · exact hphase result hj
  · exact h j result hj

/-- What an operation returns does not change with the other operations. -/
theorem answer_goto {s : State ι π} {i : ι} {phase : Phase ι π}
    (h : ∀ j r, (s.ops j).answer = some r → r.request = j)
    (hanswer : ∀ r, phase.answer = some r → r.request = i) (j : ι) (r : Response ι π)
    (hr : ((s.goto i phase).ops j).answer = some r) : r.request = j := by
  obtain ⟨rfl, hphase⟩ | ⟨-, hop⟩ := (goto_iff s i j phase (·.answer = some r)).mp hr
  · exact hanswer r hphase
  · exact h j r hop

namespace Matched

variable {s : State ι π} {i : ι} {phase : Phase ι π}

/-- The thread of an operation moves on: it stays registered if it was, and takes no number. -/
theorem goto (h : Matched s) (hregistered : phase.registered = (s.ops i).registered)
    (hnumber : ∀ n, phase.outstanding = some n → (s.ops i).outstanding = some n)
    (hanswer : ∀ r, phase.answer = some r → r.request = i) : Matched (s.goto i phase) := by
  refine h.shrink (fun n j => ?_) (fun j n hj => ?_) (fun _ _ hr => hr) rfl
    (answer_goto h.answer hanswer)
  · refine (h.ack n j).trans ?_
    by_cases hj : j = i
    · rw [hj, goto_self, hregistered]
    · rw [goto_other s phase hj]
  · obtain ⟨rfl, hphase⟩ | ⟨-, hop⟩ := (goto_iff s i j phase (·.outstanding = some n)).mp hj
    · exact hnumber n hphase
    · exact hop

/-- Registering a free number. -/
theorem register {n : SeqNo} (h : Matched s) (hi : s.ops i = .numbered n) (hfree : Free s n) :
    Matched ({ s with channel := s.channel.expectAck n i }.goto i (.sending n 0)) := by
  -- who has a number after the step: `i` has `n`, and nobody had it before
  have hout : ∀ j n', (({ s with channel := s.channel.expectAck n i }.goto i
      (.sending n 0)).ops j).outstanding = some n' ↔
        j = i ∧ n = n' ∨ j ≠ i ∧ (s.ops j).outstanding = some n' := by
    intro j n'
    have hiff := goto_iff { s with channel := s.channel.expectAck n i } i j (.sending n 0)
      (·.outstanding = some n')
    simpa only [Phase.outstanding, Option.some.injEq] using hiff
  have hreg : ∀ j n', (({ s with channel := s.channel.expectAck n i }.goto i
      (.sending n 0)).ops j).registered = some n' ↔
        j = i ∧ n = n' ∨ j ≠ i ∧ (s.ops j).registered = some n' := by
    intro j n'
    have hiff := goto_iff { s with channel := s.channel.expectAck n i } i j (.sending n 0)
      (·.registered = some n')
    simpa only [Phase.registered, Option.some.injEq] using hiff
  have hunused : ∀ j, (s.ops j).outstanding ≠ some n := by
    intro j hj
    rcases Phase.registered_or_left hj with hj | ⟨r, hj⟩
    · have hack := (h.ack n j).mpr hj
      rw [hfree.ack] at hack
      cases hack
    · exact hfree.left j r hj
  refine ⟨fun n' j => ?_, fun j k n' hj hk => ?_, fun n' r hr j hj => ?_,
    fun n' r a hrec => ⟨fun j hj => ?_, ?_⟩, ?_⟩
  · rw [hreg]
    show Function.update s.channel.expectedAcks n (some i) n' = some j ↔ _
    by_cases hn : n' = n
    · subst hn
      rw [Function.update_self, Option.some.injEq]
      constructor
      · intro hij
        exact .inl ⟨hij.symm, rfl⟩
      · rintro (⟨hij, -⟩ | ⟨-, hj⟩)
        · exact hij.symm
        · exact absurd (Phase.outstanding_of_registered hj) (hunused j)
    · rw [Function.update_of_ne hn, h.ack]
      constructor
      · intro hj
        refine .inr ⟨?_, hj⟩
        rintro rfl
        rw [hi] at hj
        cases hj
      · rintro (⟨-, hn'⟩ | ⟨-, hj⟩)
        · exact absurd hn'.symm hn
        · exact hj
  · rcases (hout j n').mp hj with ⟨rfl, rfl⟩ | ⟨-, hj⟩
    · rcases (hout k n).mp hk with ⟨rfl, -⟩ | ⟨-, hk⟩
      · rfl
      · exact absurd hk (hunused k)
    · rcases (hout k n').mp hk with ⟨-, rfl⟩ | ⟨-, hk⟩
      · exact absurd hj (hunused j)
      · exact h.distinct j k n' hj hk
  · obtain ⟨-, rfl⟩ | ⟨-, hj⟩ := (hout j n').mp hj
    · exact absurd (hfree.response.symm.trans hr) nofun
    · exact h.response n' r hr j hj
  · obtain ⟨-, rfl⟩ | ⟨-, hj⟩ := (hout j n').mp hj
    · exact absurd hrec (hfree.receiver r a)
    · exact (h.receiver n' r a hrec).1 j hj
  · exact (h.receiver n' r a hrec).2
  · exact answer_goto (s := { s with channel := s.channel.expectAck n i }) h.answer nofun

/-- The event of an operation is removed. -/
theorem popAck {n : SeqNo} {result : Option (Response ι π)} (h : Matched s)
    (hi : s.ops i = .leaving n result) :
    Matched ({ s with channel := s.channel.popAck n }.goto i (.left n result)) := by
  have hn : (s.ops i).registered = some n := by rw [hi]; rfl
  have hreg : ∀ j n', (({ s with channel := s.channel.popAck n }.goto i
      (.left n result)).ops j).registered = some n' ↔
        j ≠ i ∧ (s.ops j).registered = some n' := by
    intro j n'
    have hiff := goto_iff { s with channel := s.channel.popAck n } i j (.left n result)
      (·.registered = some n')
    simpa only [Phase.registered, reduceCtorEq, and_false, false_or] using hiff
  refine h.shrink (fun n' j => ?_) (fun j n' hj => ?_) (fun _ _ hr => hr) rfl
    (answer_goto (s := { s with channel := s.channel.popAck n }) h.answer fun r hr => ?_)
  · rw [hreg]
    show Function.update s.channel.expectedAcks n none n' = some j ↔ _
    by_cases hn' : n' = n
    · subst hn'
      rw [Function.update_self]
      refine ⟨nofun, fun ⟨hij, hj⟩ => absurd ?_ hij⟩
      exact h.distinct j i n' (Phase.outstanding_of_registered hj)
        (Phase.outstanding_of_registered hn)
    · rw [Function.update_of_ne hn', h.ack]
      refine ⟨fun hj => ⟨?_, hj⟩, fun ⟨_, hj⟩ => hj⟩
      rintro rfl
      exact hn' (Option.some.inj (hj.symm.trans hn))
  · obtain ⟨rfl, hphase⟩ | ⟨-, hop⟩ := (goto_iff { s with channel := s.channel.popAck n } i j
      (.left n result) (·.outstanding = some n')).mp hj
    · rw [hi]
      exact hphase
    · exact hop
  · refine h.answer i r ?_
    rw [hi]
    exact hr

/-- Every safe step keeps the invariant. -/
theorem step {t : State ι π} {e : Event ι π} (h : Matched s) (hsafe : Safe s e)
    (hstep : Step s e t) : Matched t := by
  cases hstep with
  | number hop =>
    have hc : Matched { s with channel := s.channel.nextSeqNo } :=
      ⟨h.ack, h.distinct, h.response, h.receiver, h.answer⟩
    refine hc.goto ?_ nofun nofun
    rw [show ({ s with channel := s.channel.nextSeqNo } : State ι π).ops = s.ops from rfl, hop]
    rfl
  | register hop => exact h.register hop (hsafe _ hop)
  | @send i n attempt hop _ =>
    have hc : Matched { s with sent := Function.update s.sent i (some n) } :=
      ⟨h.ack, h.distinct, h.response, h.receiver, h.answer⟩
    have hops : ({ s with sent := Function.update s.sent i (some n) } : State ι π).ops i =
        .sending n attempt := hop
    exact hc.goto (by rw [hops]; rfl) (fun n' hn' => by rw [hops]; exact hn') nofun
  | sendFails hop _ => exact h.goto (by rw [hop]; rfl) (fun n' hn' => by rw [hop]; exact hn') nofun
  | timeout hop _ => exact h.goto (by rw [hop]; rfl) (fun n' hn' => by rw [hop]; exact hn') nofun
  | @returns i n attempt r hop _ hr =>
    have hn : (s.ops i).outstanding = some n := by rw [hop]; rfl
    have hops : ({ s with channel := s.channel.popResponse n } : State ι π).ops i =
        .waiting n attempt := hop
    refine (h.popResponse n).goto (by rw [hops]; rfl) (fun n' hn' => by rw [hops]; exact hn') ?_
    rintro r' ⟨⟩
    exact h.response n r hr i hn
  | returnsNothing hop _ _ =>
    exact h.goto (by rw [hop]; rfl) (fun n' hn' => by rw [hop]; exact hn') nofun
  | broken hop _ => exact h.goto (by rw [hop]; rfl) (fun n' hn' => by rw [hop]; exact hn') nofun
  | giveUp hop _ => exact h.goto (by rw [hop]; rfl) (fun n' hn' => by rw [hop]; exact hn') nofun
  | popAck hop _ => exact h.popAck hop
  | @popNothing i n result hop hack =>
    have hn : (s.ops i).registered = some n := by rw [hop]; rfl
    exact absurd (hack.symm.trans ((h.ack n i).mpr hn)) nofun
  | @popResponse i n result hop =>
    have hops : ({ s with channel := s.channel.popResponse n } : State ι π).ops i =
        .left n result := hop
    refine (h.popResponse n).goto (by rw [hops]; rfl) nofun fun r hr => h.answer i r ?_
    rw [hop]
    exact hr
  | deliver _ hsent hack =>
    obtain rfl := hsafe _ _ hsent hack
    exact h.deliver hack
  | deliverUnexpected _ _ _ => exact h
  | store hrec => exact h.store hrec
  | set _ => exact ⟨h.ack, h.distinct, h.response, nofun, h.answer⟩

end Matched

/-! ### How the numbers are made -/

/-- The counter steps through the numbers of 15 bits. -/
theorem nextSeqNo_ofNat {ε ρ : Type} (c : Channel ε ρ) {k : Nat}
    (h : c.outboundSeqNo = BitVec.ofNat 16 (k % 2 ^ 15)) :
    c.nextSeqNo.outboundSeqNo = BitVec.ofNat 16 ((k + 1) % 2 ^ 15) := by
  show (c.outboundSeqNo + 1) &&& 0x7fff = _
  rw [h]
  apply BitVec.eq_of_toNat_eq
  have hmask : (0x7fff : SeqNo).toNat = 2 ^ 15 - 1 := rfl
  have hone : (1 : SeqNo).toNat = 1 := rfl
  rw [BitVec.toNat_and, hmask, Nat.and_two_pow_sub_one_eq_mod, BitVec.toNat_add,
    BitVec.toNat_ofNat, BitVec.toNat_ofNat, hone]
  omega

/-- The thread of an operation moves on, and takes no number. -/
theorem number_goto {s : State ι π} {i : ι} {phase : Phase ι π}
    (h : ∀ n, phase.number = some n → (s.ops i).number = some n) (j : ι) (n : SeqNo)
    (hj : ((s.goto i phase).ops j).number = some n) : (s.ops j).number = some n := by
  rcases (goto_iff s i j phase (·.number = some n)).mp hj with ⟨rfl, hn⟩ | ⟨-, hn⟩
  · exact h n hn
  · exact hn

/-- Only the counter makes numbers, and only for the operation whose turn it is. -/
theorem Step.number_cases {s t : State ι π} {e : Event ι π} (h : Step s e t) :
    (∃ i, e = .number i ∧ t.channel = s.channel.nextSeqNo ∧
      ∀ j n, (t.ops j).number = some n →
        j = i ∧ n = s.channel.nextSeqNo.seqNo ∨ (s.ops j).number = some n) ∨
    e.isNumber = false ∧ t.channel.outboundSeqNo = s.channel.outboundSeqNo ∧
      ∀ j n, (t.ops j).number = some n → (s.ops j).number = some n := by
  cases h with
  | @number i hop =>
    refine .inl ⟨i, rfl, rfl, fun j n hj => ?_⟩
    rcases (goto_iff { s with channel := s.channel.nextSeqNo } i j
      (.numbered s.channel.nextSeqNo.seqNo) (·.number = some n)).mp hj with ⟨rfl, hn⟩ | ⟨-, hn⟩
    · exact .inl ⟨rfl, (Option.some.inj hn).symm⟩
    · exact .inr hn
  | @register i n hop =>
    exact .inr ⟨rfl, rfl, number_goto (s := { s with channel := s.channel.expectAck n i })
      fun n' hn => by rw [show _ = s.ops i from rfl, hop]; exact hn⟩
  | @send i n attempt hop =>
    exact .inr ⟨rfl, rfl, number_goto (s := { s with sent := Function.update s.sent i (some n) })
      fun n' hn => by rw [show _ = s.ops i from rfl, hop]; exact hn⟩
  | @returns i n attempt r hop =>
    exact .inr ⟨rfl, rfl, number_goto (s := { s with channel := s.channel.popResponse n })
      fun n' hn => by rw [show _ = s.ops i from rfl, hop]; exact hn⟩
  | @popAck i j n result hop =>
    exact .inr ⟨rfl, rfl, number_goto (s := { s with channel := s.channel.popAck n })
      fun n' hn => by rw [show _ = s.ops i from rfl, hop]; exact hn⟩
  | @popResponse i n result hop =>
    exact .inr ⟨rfl, rfl, number_goto (s := { s with channel := s.channel.popResponse n }) nofun⟩
  | sendFails hop => exact .inr ⟨rfl, rfl, number_goto fun n' hn => by rw [hop]; exact hn⟩
  | timeout hop => exact .inr ⟨rfl, rfl, number_goto fun n' hn => by rw [hop]; exact hn⟩
  | returnsNothing hop => exact .inr ⟨rfl, rfl, number_goto fun n' hn => by rw [hop]; exact hn⟩
  | broken hop => exact .inr ⟨rfl, rfl, number_goto fun n' hn => by rw [hop]; exact hn⟩
  | giveUp hop => exact .inr ⟨rfl, rfl, number_goto fun n' hn => by rw [hop]; exact hn⟩
  | popNothing hop => exact .inr ⟨rfl, rfl, number_goto nofun⟩
  | deliver => exact .inr ⟨rfl, rfl, fun _ _ hj => hj⟩
  | deliverUnexpected => exact .inr ⟨rfl, rfl, fun _ _ hj => hj⟩
  | store => exact .inr ⟨rfl, rfl, fun _ _ hj => hj⟩
  | set => exact .inr ⟨rfl, rfl, fun _ _ hj => hj⟩

/-- The number of an operation that was the `k`-th to get one is `numberOf k`. -/
theorem number_of_run {es : List (Event ι π)} {s : State ι π} (h : Run Step State.init es s) :
    s.channel.outboundSeqNo = BitVec.ofNat 16 (es.countP Event.isNumber % 2 ^ 15) ∧
      ∀ i n, (s.ops i).number = some n → ∃ before later, es = before ++ .number i :: later ∧
        n = numberOf (before.countP Event.isNumber + 1) := by
  induction h with
  | nil => exact ⟨rfl, nofun⟩
  | @snoc es t u e _ he ih =>
    obtain ⟨hcounter, hnumbers⟩ := ih
    -- what was numbered before keeps its place
    have hold : ∀ i n, (t.ops i).number = some n → ∃ before later,
        es ++ [e] = before ++ .number i :: later ∧
          n = numberOf (before.countP Event.isNumber + 1) := by
      intro i n hn
      obtain ⟨before, later, rfl, hn'⟩ := hnumbers i n hn
      exact ⟨before, later ++ [e], by simp, hn'⟩
    rw [List.countP_append, List.countP_singleton]
    rcases he.number_cases with ⟨i, rfl, hchannel, hops⟩ | ⟨hevent, hchannel, hops⟩
    · have hnext := nextSeqNo_ofNat t.channel hcounter
      refine ⟨by rw [hchannel]; exact hnext, fun j n hj => ?_⟩
      rcases hops j n hj with ⟨rfl, rfl⟩ | hj
      · exact ⟨es, [], rfl, congrArg (· ||| 0x80) hnext⟩
      · exact hold j n hj
    · rw [hevent]
      exact ⟨hchannel.trans hcounter, fun j n hj => hold j n (hops j n hj)⟩

/-- In the runs in which every operation registers a free number, and no response arrives
for another operation, the numbers are distinct, no step touches an entry of another
operation, and each operation returns a response to its own request. (The number of the
`k`-th operation is `numberOf k`.) -/
theorem responses_matched {es : List (Event ι π)} {s : State ι π}
    (h : Run (Guarded Safe Step) State.init es s) :
    Correct s ∧ (∀ e, Safe s e → ¬ Clobbers s e) ∧
      ∀ i n, (s.ops i).number = some n → ∃ before later, es = before ++ .number i :: later ∧
        n = numberOf (before.countP Event.isNumber + 1) := by
  have hm : Matched s := h.invariant .init fun t e u ht hstep => ht.step hstep.1 hstep.2
  refine ⟨hm.correct, fun e he => hm.not_clobbers he, ?_⟩
  exact (number_of_run (h.mono fun _ _ _ hstep => hstep.2)).2

/-- Two threads; the response to the second request comes first. -/
theorem responses_matched_two :
    ∃ s : State Nat Nat, Run (Guarded Safe Step) State.init
      [.number 0, .number 1, .register 1, .register 0, .send 0, .send 1, .deliver ⟨1, 7⟩, .store,
        .set, .returns 1, .popAck 1, .popResponse 1] s ∧
      (s.ops 1).result = some ⟨1, 7⟩ ∧ Correct s := by
  have snoc {es e} {t u : State Nat Nat} (h : Run (Guarded Safe Step) State.init es t)
      (hstep : Step t e u) (hsafe : Safe t e) : Run (Guarded Safe Step) State.init (es ++ [e]) u :=
    h.snoc ⟨hsafe, hstep⟩
  have h1 := snoc .nil (.number (i := 0) rfl) trivial
  have h2 := snoc h1 (.number (i := 1) rfl) trivial
  have hfree₁ : ∀ n j result, Function.update (Function.update (fun _ => Phase.idle) 0
      (.numbered 0x81)) 1 (.numbered 0x82) j ≠ (.left n result : Phase Nat Nat) := fun n =>
    update_ne_left (update_ne_left (fun _ _ => by simp) fun _ => by simp) fun _ => by simp
  have h3 := snoc h2 (.register (i := 1) (n := 0x82) rfl)
    (safe_register rfl ⟨rfl, rfl, by simp [State.goto, State.init], hfree₁ _⟩)
  have h4 := snoc h3 (.register (i := 0) (n := 0x81) rfl)
    (safe_register rfl ⟨rfl, rfl, by simp [State.goto, State.init],
      update_ne_left (hfree₁ _) fun _ => by simp⟩)
  have h5 := snoc h4 (.send (i := 0) (n := 0x81) rfl (by decide)) trivial
  have h6 := snoc h5 (.send (i := 1) (n := 0x82) rfl (by decide)) trivial
  have h7 := snoc h6 (.deliver (r := ⟨1, 7⟩) (n := 0x82) rfl rfl rfl) (safe_deliver rfl rfl)
  have h8 := snoc h7 (.store rfl) trivial
  have h9 := snoc h8 (.set rfl) trivial
  have h10 := snoc h9 (.returns (i := 1) (n := 0x82) rfl rfl rfl) trivial
  have h11 := snoc h10 (.popAck (i := 1) (n := 0x82) rfl rfl) trivial
  have h12 := snoc h11 (.popResponse (i := 1) (n := 0x82) rfl) trivial
  exact ⟨_, h12, rfl, (responses_matched h12).1⟩

/-! ### Numbers that come back -/

/-- The first `k` operations get their numbers. -/
theorem run_number (k : Nat) (hk : k < 2 ^ 15) :
    ∃ s : State Nat Unit,
      Run (Guarded (fun s _ => FewOutstanding s) Step) State.init ((List.range k).map .number) s ∧
      s.channel.outboundSeqNo = BitVec.ofNat 16 (k % 2 ^ 15) ∧
      (∀ i < k, s.ops i = .numbered (numberOf (i + 1))) ∧
      ∀ i, k ≤ i → s.ops i = .idle := by
  induction k with
  | zero => exact ⟨State.init, .nil, rfl, nofun, fun _ _ => rfl⟩
  | succ k ih =>
    obtain ⟨s, hrun, hno, hops, hidle⟩ := ih (by omega)
    have hnext := nextSeqNo_ofNat s.channel hno
    have hfew : FewOutstanding s := by
      refine ⟨List.range k, ?_, fun i => ?_⟩
      · rw [List.length_range]
        omega
      · by_cases hi : i < k
        · exact .inl (List.mem_range.mpr hi)
        · exact .inr (.inl (hidle i (by omega)))
    refine ⟨{ s with channel := s.channel.nextSeqNo }.goto k (.numbered s.channel.nextSeqNo.seqNo),
      ?_, ?_, fun i hi => ?_, fun i hi => ?_⟩
    · rw [List.range_succ, List.map_append]
      exact hrun.snoc ⟨hfew, .number (hidle k (Nat.le_refl k))⟩
    · exact hnext
    · by_cases hik : i = k
      · subst hik
        rw [goto_self, Channel.seqNo, hnext]
        rfl
      · rw [goto_other _ _ hik]
        exact hops i (by omega)
    · rw [goto_other _ _ (by omega)]
      exact hidle i (by omega)

/-- The first and the 129th operation have the same number. -/
theorem responses_not_matched :
    ¬ ∀ (es : List (Event Nat Unit)) (s : State Nat Unit),
      Run (Guarded (fun s _ => FewOutstanding s) Step) State.init es s → FewOutstanding s →
        Correct s := by
  intro hcorrect
  obtain ⟨s, hrun, -, hops, hidle⟩ := run_number 129 (by decide)
  have h0 : s.ops 0 = .numbered 0x81 := hops 0 (by decide)
  have h128 : s.ops 128 = .numbered 0x81 := hops 128 (by decide)
  have hfew : ∀ t : State Nat Unit, (∀ i, 129 ≤ i → t.ops i = s.ops i) → FewOutstanding t := by
    intro t ht
    refine ⟨List.range 129, by rw [List.length_range]; decide, fun i => ?_⟩
    by_cases hi : i < 129
    · exact .inl (List.mem_range.mpr hi)
    · exact .inr (.inl ((ht i (by omega)).trans (hidle i (by omega))))
  have hrun1 := hrun.snoc ⟨hfew s fun _ _ => rfl, .register h0⟩
  have hrun2 := hrun1.snoc ⟨hfew _ fun i hi => goto_other _ _ (by omega),
    .register ((goto_other _ _ (by decide)).trans h128)⟩
  refine absurd ((hcorrect _ _ hrun2 (hfew _ fun i hi => ?_)).distinct 0 128 0x81 ?_ ?_) (by decide)
  · rw [goto_other _ _ (by omega)]
    exact goto_other _ _ (by omega)
  · rw [goto_other _ _ (by decide)]
    exact congrArg Phase.outstanding
      (goto_self { s with channel := s.channel.expectAck 0x81 0 } 0 (.sending 0x81 0))
  · rw [goto_self]
    rfl

end Threads

end WODrive.Fibre.Host
