import WODrive.Fibre.Descriptor
import WODrive.Library.Runs

/-!
# Calling a function of the device (fibre/python/fibre/remote_object.py)

A function has an endpoint that triggers it, one for each argument and one for each output.
`RemoteFunction.__call__` writes the arguments one after the other, triggers the function and
reads its first output. On the device there is one variable for each argument and each output
of a function, whoever calls it. So two calls of the same function can mix: the function is
executed with arguments of another call, or a caller reads the output of another execution
(`calls_mix`). `calls_not_mixed`: they do not as long as no call writes an argument that
another call has written and not used yet, and no call triggers the function while another
one has to read its output.

Every request arrives at the device and is answered, in any order of the calls' requests.
-/

namespace WODrive.Fibre.Remote

open WODrive.Fibre.Host

/-! ## Codecs -/

/-- `StructCodec` on the host and `Codec<T>` on the device. -/
structure Codec (α : Type) where
  length : Nat
  encode : α → List Byte
  /-- The device takes as many bytes as it needs. -/
  decode : List Byte → Option α
  length_encode : ∀ x, (encode x).length = length
  decode_encode : ∀ x, decode (encode x) = some x

namespace Codec

variable {α : Type} (codec : Codec α)

/-- `StructCodec.deserialize`: `struct.unpack` wants exactly as many bytes. -/
def deserialize (buffer : List Byte) : Option α :=
  if buffer.length = codec.length then codec.decode buffer else none

/-- What `Codec<T>::encode` puts into an output buffer of this length. -/
def write (x : α) (outputLength : Nat) : List Byte := (codec.encode x).take outputLength

/-- `Property<T>::exchange` of a variable, behind the stub: the response and the new value. -/
def exchange (value : α) (input : List Byte) (outputLength : Nat) : List Byte × α :=
  (codec.write value outputLength, (codec.decode input).getD value)

theorem exchange_encode (value x : α) (outputLength : Nat) :
    (codec.exchange value (codec.encode x) outputLength).2 = x := by
  rw [exchange, codec.decode_encode, Option.getD_some]

/-- A value that is read comes back. -/
theorem deserialize_write (x : α) : codec.deserialize (codec.write x codec.length) = some x := by
  have hwhole : codec.write x codec.length = codec.encode x := by
    rw [write, ← codec.length_encode x, List.take_length]
  rw [hwhole, deserialize, if_pos (codec.length_encode x), codec.decode_encode]

end Codec

/-- `Codec<int32_t>` -/
def codecInt32 : Codec (BitVec 32) where
  length := 4
  encode := packI
  decode
    | b0 :: b1 :: b2 :: b3 :: _ => some (b3 ++ b2 ++ b1 ++ b0)
    | _ => none
  length_encode := fun _ => rfl
  decode_encode := fun x => congrArg some (packI_bytes x)

/-! ## The device -/

/-- What an endpoint of a function with `n` arguments and `m` outputs is for. -/
inductive Endpoint (n m : Nat) where
  | trigger
  | input (i : Fin n)
  | output (j : Fin m)

/-- A function of an object, as the generator puts it into the endpoint table. -/
structure Func {n m : Nat} (σ : Type) (α : Fin n → Type) (β : Fin m → Type) where
  id : Nat
  inputs : ∀ i, Codec (α i)
  outputs : ∀ j, Codec (β j)
  call : σ → (∀ i, α i) → (∀ j, β j) × σ

/-- An object on the device, with the variables `<function>_in_<argument>_` and
`<function>_out_<output>_` of a function. -/
structure Object {n m : Nat} (σ : Type) (α : Fin n → Type) (β : Fin m → Type) where
  state : σ
  ins : ∀ i, α i
  outs : ∀ j, β j

variable {n m : Nat} {σ : Type} {α : Fin n → Type} {β : Fin m → Type}

namespace Func

variable (f : Func σ α β)

/-- The endpoint of an argument; the first one of `func['in']` is the object. -/
def inputId (i : Fin n) : Nat := f.id + 1 + i

def outputId (j : Fin m) : Nat := f.id + (n + 1) + j

/-- The endpoints that `generate_endpoint_table` makes for a function. -/
def endpoint (idx : Nat) : Option (Endpoint n m) :=
  if idx = f.id then some .trigger
  else if h : f.id + 1 ≤ idx ∧ idx < f.id + 1 + n then
    some (.input ⟨idx - (f.id + 1), by omega⟩)
  else if h : f.id + (n + 1) ≤ idx ∧ idx < f.id + (n + 1) + m then
    some (.output ⟨idx - (f.id + (n + 1)), by omega⟩)
  else none

theorem endpoint_id : f.endpoint f.id = some .trigger := if_pos rfl

theorem endpoint_inputId (i : Fin n) : f.endpoint (f.inputId i) = some (.input i) := by
  have hi := i.isLt
  rw [endpoint, if_neg (by rw [inputId]; omega), dif_pos (by rw [inputId]; omega)]
  congr 2
  ext
  show f.id + 1 + i.val - (f.id + 1) = i
  omega

theorem endpoint_outputId (j : Fin m) : f.endpoint (f.outputId j) = some (.output j) := by
  have hj := j.isLt
  rw [endpoint, if_neg (by rw [outputId]; omega), dif_neg (by rw [outputId]; omega),
    dif_pos (by rw [outputId]; omega)]
  congr 2
  ext
  show f.id + (n + 1) + j.val - (f.id + (n + 1)) = j
  omega

/-- `endpoint_handler`, at the endpoints of the function: the response and what becomes of
the object. -/
def endpointHandler (idx : Nat) (input : List Byte) (outputLength : Nat) (o : Object σ α β) :
    List Byte × Object σ α β :=
  match f.endpoint idx with
  | some .trigger =>
    let (outs, state) := f.call o.state o.ins
    ([], { o with state := state, outs := outs })
  | some (.input i) =>
    let (response, value) := (f.inputs i).exchange (o.ins i) input outputLength
    (response, { o with ins := Function.update o.ins i value })
  | some (.output j) => ((f.outputs j).write (o.outs j) outputLength, o)
  | none => ([], o)

end Func

/-! ## The calls -/

structure Request where
  endpointId : Nat
  input : List Byte
  outputLength : Nat

/-- Where a call is in `RemoteFunction.__call__`. -/
inductive Phase {m : Nat} (β : Fin m → Type) where
  /-- It has written the arguments before `i`. -/
  | writing (i : Nat)
  /-- It has an output to read. -/
  | triggered
  | returned (value : Option (Σ j, β j))
  /-- The output cannot be deserialized. -/
  | failed

namespace Phase

variable (f : Func σ α β)

/-- The next request of a call with these arguments. -/
def nextRequest (args : ∀ i, α i) : Phase β → Option Request
  | .writing i =>
    if h : i < n then
      some ⟨f.inputId ⟨i, h⟩, (f.inputs ⟨i, h⟩).encode (args ⟨i, h⟩), 0⟩
    else some ⟨f.id, [], 0⟩
  | .triggered =>
    if h : 0 < m then some ⟨f.outputId ⟨0, h⟩, [], (f.outputs ⟨0, h⟩).length⟩ else none
  | _ => none

/-- What follows the response to the request. -/
def resume (response : List Byte) : Phase β → Phase β
  | .writing i =>
    if i < n then .writing (i + 1) else if 0 < m then .triggered else .returned none
  | .triggered =>
    if h : 0 < m then
      match (f.outputs ⟨0, h⟩).deserialize response with
      | some value => .returned (some ⟨⟨0, h⟩, value⟩)
      | none => .failed
    else .returned none
  | phase => phase

end Phase

/-- What the function was executed with, and its outputs. -/
structure Execution {n m : Nat} (α : Fin n → Type) (β : Fin m → Type) where
  ins : ∀ i, α i
  outs : ∀ j, β j

/-- The output that a call returns, if there is one. -/
def Execution.output (e : Execution α β) : Option (Σ j, β j) :=
  if h : 0 < m then some ⟨⟨0, h⟩, e.outs ⟨0, h⟩⟩ else none

/-- The object, and the calls of a function that are made on it. -/
structure State {n m : Nat} (ι σ : Type) (α : Fin n → Type) (β : Fin m → Type) where
  object : Object σ α β
  calls : ι → Phase β
  /-- what a call has triggered -/
  executions : ι → List (Execution α β)

inductive Event (ι σ : Type) where
  /-- The next request of a call. -/
  | request (c : ι)
  /-- The firmware changes the object. -/
  | firmware (state : σ)

variable {ι : Type}

/-- No call has begun. -/
def State.init (o : Object σ α β) : State ι σ α β := ⟨o, fun _ => .writing 0, fun _ => []⟩

section Steps

variable [DecidableEq ι] (f : Func σ α β) (args : ι → ∀ i, α i)

def step (s : State ι σ α β) : Event ι σ → State ι σ α β
  | .request c =>
    match (s.calls c).nextRequest f (args c) with
    | none => s
    | some r =>
      let (response, object) := f.endpointHandler r.endpointId r.input r.outputLength s.object
      { object := object
        calls := Function.update s.calls c ((s.calls c).resume f response)
        executions :=
          if r.endpointId = f.id then
            Function.update s.executions c (s.executions c ++ [⟨s.object.ins, object.outs⟩])
          else s.executions }
  | .firmware state => { s with object := { s.object with state := state } }

end Steps

/-! ## What is claimed of the calls -/

/-- Every execution has the arguments of the call that triggered it. -/
def OwnArguments (args : ι → ∀ i, α i) (s : State ι σ α β) : Prop :=
  ∀ c e, e ∈ s.executions c → e.ins = args c

/-- A call that returns has triggered one execution, and returns its output. -/
def OwnOutput (s : State ι σ α β) : Prop :=
  ∀ c value, s.calls c = .returned value → ∃ e, s.executions c = [e] ∧ value = e.output

/-- The next request of a call in the first phase changes what a call in the second one still
needs: an argument that it has written, or the output that it has to read. -/
def Phase.Disturbs (n : Nat) : Phase β → Phase β → Prop
  | .writing i, .writing k => i < n ∧ i < k
  | .writing i, .triggered => n ≤ i
  | _, _ => False

/-- The events that disturb no call. -/
def Undisturbed (s : State ι σ α β) : Event ι σ → Prop
  | .request c => ∀ d, d ≠ c → ¬ (s.calls c).Disturbs n (s.calls d)
  | .firmware _ => True

/-! ## What a request does -/

section Requests

variable [DecidableEq ι] {f : Func σ α β} {args : ι → ∀ i, α i} {s : State ι σ α β} {c : ι}

/-- An argument is written. -/
theorem step_write {i : Nat} (hc : s.calls c = .writing i) (hi : i < n) :
    step f args s (.request c) =
      { object := { s.object with ins := Function.update s.object.ins ⟨i, hi⟩ (args c ⟨i, hi⟩) }
        calls := Function.update s.calls c (.writing (i + 1))
        executions := s.executions } := by
  have hother : f.inputId ⟨i, hi⟩ ≠ f.id := by
    rw [Func.inputId]
    omega
  rw [step, hc, Phase.nextRequest, dif_pos hi]
  simp only [Func.endpointHandler, Func.endpoint_inputId, Codec.exchange_encode, Phase.resume,
    if_pos hi, if_neg hother]

/-- The function is executed. -/
theorem step_trigger {i : Nat} (hc : s.calls c = .writing i) (hi : ¬ i < n) :
    step f args s (.request c) =
      { object :=
          ⟨(f.call s.object.state s.object.ins).2, s.object.ins,
            (f.call s.object.state s.object.ins).1⟩
        calls := Function.update s.calls c (if 0 < m then .triggered else .returned none)
        executions := Function.update s.executions c
          (s.executions c ++ [⟨s.object.ins, (f.call s.object.state s.object.ins).1⟩]) } := by
  rw [step, hc, Phase.nextRequest, dif_neg hi]
  simp only [Func.endpointHandler, Func.endpoint_id, Phase.resume, if_neg hi, if_true]

/-- The output is read. -/
theorem step_read (hc : s.calls c = .triggered) (hm : 0 < m) :
    step f args s (.request c) =
      { s with calls :=
          Function.update s.calls c (.returned (some ⟨⟨0, hm⟩, s.object.outs ⟨0, hm⟩⟩)) } := by
  have hother : f.outputId ⟨0, hm⟩ ≠ f.id := by
    rw [Func.outputId]
    omega
  rw [step, hc, Phase.nextRequest, dif_pos hm]
  simp only [Func.endpointHandler, Func.endpoint_outputId, Phase.resume, dif_pos hm,
    Codec.deserialize_write, if_neg hother]

/-- A call that has ended sends no request. -/
theorem step_ended (hc : (s.calls c).nextRequest f (args c) = none) :
    step f args s (.request c) = s := by
  rw [step, hc]

end Requests

/-! ## Calls that do not disturb each other -/

/-- The variables hold what the calls that have begun and not ended rely on. -/
structure Held (args : ι → ∀ i, α i) (s : State ι σ α β) : Prop where
  writing : ∀ c k, s.calls c = .writing k →
    s.executions c = [] ∧ ∀ i : Fin n, i < k → s.object.ins i = args c i
  triggered : ∀ c, s.calls c = .triggered → ∃ e, s.executions c = [e] ∧ e.outs = s.object.outs
  arguments : OwnArguments args s
  output : OwnOutput s
  answered : ∀ c, s.calls c ≠ .failed

namespace Held

variable {args : ι → ∀ i, α i} {s : State ι σ α β}

theorem init (o : Object σ α β) : Held args (State.init o : State ι σ α β) := by
  refine ⟨fun c k hk => ⟨rfl, fun i hi => ?_⟩, nofun, nofun, nofun, nofun⟩
  cases hk
  exact absurd hi (Nat.not_lt_zero _)

variable [DecidableEq ι] {f : Func σ α β} {c : ι}

theorem write (h : Held args s) {i : Nat} (hc : s.calls c = .writing i) (hi : i < n)
    (hsafe : Undisturbed s (.request c)) : Held args (step f args s (.request c)) := by
  rw [step_write hc hi]
  refine ⟨fun d k hk => ?_, fun d hd => ?_, h.arguments, fun d value hd => ?_, fun d hd => ?_⟩
  · obtain ⟨rfl, hphase⟩ | ⟨hne, hd⟩ := update_cases hk
    · cases hphase
      refine ⟨(h.writing d i hc).1, fun j hj => ?_⟩
      by_cases hji : j = ⟨i, hi⟩
      · subst hji
        exact Function.update_self ..
      · have hlt : j.val < i := by
          have hval : j.val ≠ i := fun hval => hji (Fin.ext hval)
          omega
        exact (Function.update_of_ne hji ..).trans ((h.writing d i hc).2 j hlt)
    · refine ⟨(h.writing d k hd).1, fun j hj => ?_⟩
      -- the other call has not written this argument yet
      have hki : ¬ i < k := by
        intro hik
        refine hsafe d hne ?_
        rw [hc, hd]
        exact ⟨hi, hik⟩
      have hji : j ≠ ⟨i, hi⟩ := by
        rintro rfl
        exact hki hj
      exact (Function.update_of_ne hji ..).trans ((h.writing d k hd).2 j hj)
  · obtain ⟨-, hphase⟩ | ⟨-, hd⟩ := update_cases hd
    · cases hphase
    · exact h.triggered d hd
  · obtain ⟨-, hphase⟩ | ⟨-, hd⟩ := update_cases hd
    · cases hphase
    · exact h.output d value hd
  · obtain ⟨-, hphase⟩ | ⟨-, hd⟩ := update_cases hd
    · cases hphase
    · exact h.answered d hd

theorem trigger (h : Held args s) {i : Nat} (hc : s.calls c = .writing i) (hi : ¬ i < n)
    (hsafe : Undisturbed s (.request c)) : Held args (step f args s (.request c)) := by
  have hins : s.object.ins = args c :=
    funext fun j => (h.writing c i hc).2 j (by omega)
  rw [step_trigger hc hi]
  let e₀ : Execution α β := ⟨s.object.ins, (f.call s.object.state s.object.ins).1⟩
  have hown : Function.update s.executions c (s.executions c ++ [e₀]) c = [e₀] := by
    rw [Function.update_self, (h.writing c i hc).1]
    rfl
  have hothers : ∀ d, d ≠ c →
      Function.update s.executions c (s.executions c ++ [e₀]) d = s.executions d :=
    fun d hd => Function.update_of_ne hd ..
  refine ⟨fun d k hk => ?_, fun d hd => ?_, fun d e he => ?_, fun d value hd => ?_, fun d hd => ?_⟩
  · obtain ⟨-, hphase⟩ | ⟨hne, hd⟩ := update_cases hk
    · split at hphase <;> cases hphase
    · exact ⟨(hothers d hne).trans (h.writing d k hd).1, (h.writing d k hd).2⟩
  · obtain ⟨rfl, -⟩ | ⟨hne, hd⟩ := update_cases hd
    · exact ⟨e₀, hown, rfl⟩
    · -- nobody has to read an output
      refine absurd ?_ (hsafe d hne)
      rw [hc, hd]
      exact Nat.le_of_not_lt hi
  · by_cases hd : d = c
    · subst hd
      have hmem : e ∈ [e₀] := hown ▸ he
      rw [List.mem_singleton.mp hmem]
      exact hins
    · have hmem : e ∈ s.executions d := hothers d hd ▸ he
      exact h.arguments d e hmem
  · obtain ⟨rfl, hphase⟩ | ⟨hne, hd⟩ := update_cases hd
    · by_cases hm : 0 < m
      · rw [if_pos hm] at hphase
        cases hphase
      · rw [if_neg hm] at hphase
        cases hphase
        refine ⟨e₀, hown, ?_⟩
        rw [Execution.output, dif_neg hm]
    · obtain ⟨e, he, hvalue⟩ := h.output d value hd
      exact ⟨e, (hothers d hne).trans he, hvalue⟩
  · obtain ⟨-, hphase⟩ | ⟨-, hd⟩ := update_cases hd
    · split at hphase <;> cases hphase
    · exact h.answered d hd

theorem read (h : Held args s) (hc : s.calls c = .triggered) (hm : 0 < m) :
    Held args (step f args s (.request c)) := by
  obtain ⟨e, he, houts⟩ := h.triggered c hc
  rw [step_read hc hm]
  refine ⟨fun d k hk => ?_, fun d hd => ?_, h.arguments, fun d value hd => ?_, fun d hd => ?_⟩
  · obtain ⟨-, hphase⟩ | ⟨-, hd⟩ := update_cases hk
    · cases hphase
    · exact h.writing d k hd
  · obtain ⟨-, hphase⟩ | ⟨-, hd⟩ := update_cases hd
    · cases hphase
    · exact h.triggered d hd
  · obtain ⟨rfl, hphase⟩ | ⟨-, hd⟩ := update_cases hd
    · cases hphase
      refine ⟨e, he, ?_⟩
      rw [Execution.output, dif_pos hm, houts]
    · exact h.output d value hd
  · obtain ⟨-, hphase⟩ | ⟨-, hd⟩ := update_cases hd
    · cases hphase
    · exact h.answered d hd

/-- Every event that disturbs no call keeps what the calls rely on. -/
theorem step {e : Event ι σ} (h : Held args s) (hsafe : Undisturbed s e) :
    Held args (step f args s e) := by
  cases e with
  | firmware state => exact ⟨h.writing, h.triggered, h.arguments, h.output, h.answered⟩
  | request c =>
    cases hc : s.calls c with
    | writing i =>
      by_cases hi : i < n
      · exact h.write hc hi hsafe
      · exact h.trigger hc hi hsafe
    | triggered =>
      by_cases hm : 0 < m
      · exact h.read hc hm
      · rw [step_ended (by rw [hc, Phase.nextRequest, dif_neg hm])]
        exact h
    | returned value =>
      rw [step_ended (by rw [hc]; rfl)]
      exact h
    | failed => exact absurd hc (h.answered c)

end Held

/-- In the runs in which no call disturbs another one, every execution has the arguments of
the call that triggered it, and every call returns the output of its own execution. -/
theorem calls_not_mixed [DecidableEq ι] {f : Func σ α β} {args : ι → ∀ i, α i}
    {o : Object σ α β} {es : List (Event ι σ)} {s : State ι σ α β}
    (h : Run (Guarded Undisturbed fun s e t => t = step f args s e) (State.init o) es s) :
    OwnArguments args s ∧ OwnOutput s := by
  have hheld : Held args s := by
    refine h.invariant (Held.init o) fun t e u ht hstep => ?_
    rw [hstep.2]
    exact ht.step hstep.1
  exact ⟨hheld.arguments, hheld.output⟩

/-- Calls one at a time do not disturb each other. -/
theorem undisturbed_of_alone {s : State ι σ α β} {c : ι}
    (h : ∀ d, d ≠ c → s.calls d = .writing 0 ∨ ∃ value, s.calls d = .returned value) :
    Undisturbed s (.request c) := by
  intro d hd hdisturbs
  obtain hbegin | ⟨value, hend⟩ := h d hd
  · rw [hbegin] at hdisturbs
    cases hc : s.calls c with
    | writing i =>
      rw [hc] at hdisturbs
      exact absurd hdisturbs.2 (Nat.not_lt_zero i)
    | _ =>
      rw [hc] at hdisturbs
      exact hdisturbs
  · rw [hend] at hdisturbs
    cases hc : s.calls c with
    | _ =>
      rw [hc] at hdisturbs
      exact hdisturbs

/-! ### Two calls of `test_function` -/

/-- `ODrive::test_function`, with its counter. -/
def testFunction : Func (BitVec 32) (fun _ : Fin 1 => BitVec 32) (fun _ : Fin 1 => BitVec 32) where
  id := 1
  inputs := fun _ => codecInt32
  outputs := fun _ => codecInt32
  call := fun cnt ins => (fun _ => cnt + ins 0, cnt + ins 0)

/-- A board that has just started. -/
def board : Object (BitVec 32) (fun _ : Fin 1 => BitVec 32) (fun _ : Fin 1 => BitVec 32) :=
  ⟨0, fun _ => 0, fun _ => 0⟩

/-- Two calls, with the arguments 1 and 2. -/
def deltas (c : Bool) : Fin 1 → BitVec 32 := fun _ => if c then 2 else 1

/-- With two calls, there is only one other one. -/
theorem undisturbed_of_two {s : State Bool σ α β} {c : Bool}
    (h : ¬ (s.calls c).Disturbs n (s.calls !c)) : Undisturbed s (.request c) := by
  intro d hd
  cases Bool.eq_not.mpr hd
  exact h

/-- The second call writes its argument before the output of the first one is read. -/
theorem calls_not_mixed_two :
    ∃ s, Run (Guarded Undisturbed fun s e t => t = step testFunction deltas s e)
        (State.init board) [.request false, .request false, .request true, .request false,
          .request true, .request true] s ∧
      (∃ e, s.executions true = [e] ∧ e.ins 0 = 2 ∧ e.outs 0 = 3) ∧
      OwnArguments deltas s ∧ OwnOutput s := by
  have snoc {es e} {t : State Bool _ _ _}
      (h : Run (Guarded Undisturbed fun s e t => t = step testFunction deltas s e)
        (State.init board) es t) (hsafe : Undisturbed t e) :
      Run (Guarded Undisturbed fun s e t => t = step testFunction deltas s e)
        (State.init board) (es ++ [e]) (step testFunction deltas t e) := h.snoc ⟨hsafe, rfl⟩
  have h1 := snoc .nil (undisturbed_of_two (c := false) fun h => absurd h.2 (by decide))
  have h2 := snoc h1 (undisturbed_of_two (c := false) fun h => absurd h.1 (by decide))
  have h3 := snoc h2 (undisturbed_of_two (c := true) (Nat.not_succ_le_zero 0))
  have h4 := snoc h3 (undisturbed_of_two (c := false) id)
  have h5 := snoc h4 (undisturbed_of_two (c := true) id)
  have h6 := snoc h5 (undisturbed_of_two (c := true) id)
  exact ⟨_, h6, ⟨_, rfl, rfl, rfl⟩, calls_not_mixed h6⟩

/-- The second call writes its argument before the first one triggers the function, or
triggers the function before the first one reads the output. -/
theorem calls_mix :
    (∃ es s, Run (fun s e t => t = step testFunction deltas s e) (State.init board) es s ∧
      ¬ OwnArguments deltas s) ∧
    ∃ es s, Run (fun s e t => t = step testFunction deltas s e) (State.init board) es s ∧
      ¬ OwnOutput s := by
  constructor
  · refine ⟨[.request false, .request true, .request false], _, Run.foldl _ _ _, fun h => ?_⟩
    have hins := h false _ (List.mem_singleton.mpr rfl)
    have hdelta : (2 : BitVec 32) = 1 := congrFun hins 0
    exact absurd hdelta (by decide)
  · refine ⟨[.request false, .request false, .request true, .request true, .request false], _,
      Run.foldl _ _ _, fun h => ?_⟩
    obtain ⟨e, he, hvalue⟩ := h false (some ⟨0, 3⟩) rfl
    have hown : (some 1 : Option (BitVec 32)) = some (e.outs 0) :=
      congrArg (fun es => es.head?.map (·.outs 0)) he
    have hread : (some 3 : Option (BitVec 32)) = some (e.outs 0) :=
      congrArg (Option.map fun value : (Σ _ : Fin 1, BitVec 32) => value.2) hvalue
    exact absurd (hread.trans hown.symm) (by decide)

end WODrive.Fibre.Remote
