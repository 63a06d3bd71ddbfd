import Mathlib.Data.List.Nodup
import WODrive.Hal.Gpio
import WODrive.Library.Runs

/-!
# Subscriptions side by side

`Unique` (at most one entry for a pin of a port) holds in every run of calls. `Served`
(the interrupt line of every entry with a callback is enabled) holds as long as no call
of `GPIO_unsubscribe` is for a pin whose line other pins with a callback share, while no
other port has an entry with the pin's number: `subscriptions_survive`. Such a call
switches the line off (`gpioUnsubscribe_served_iff`).
-/

namespace WODrive.Hal

universe u v w

variable {π : Type u} {κ : Type v} {ξ : Type w} [DecidableEq π]
variable {s t : State π κ ξ} {port : π} {pin : BitVec 16}

/-! ## Interrupt lines -/

theorem twoPow_shift {k : Nat} (hk : k + 1 < 16) :
    BitVec.twoPow 16 (k + 1) >>> 1 = BitVec.twoPow 16 k := by
  apply BitVec.eq_of_toNat_eq
  rw [BitVec.toNat_ushiftRight, BitVec.toNat_twoPow_of_lt hk,
    BitVec.toNat_twoPow_of_lt (by omega), Nat.shiftRight_eq_div_pow, Nat.pow_succ]
  omega

theorem shiftOut_twoPow {k : Nat} (hk : k < 16) (n : Nat) :
    shiftOut (BitVec.twoPow 16 k) n = n + k + 1 := by
  have hne : BitVec.twoPow 16 k ≠ 0 := by
    intro h
    have hbit := congrArg (fun x : BitVec 16 => x.getLsbD k) h
    simp [hk] at hbit
  rw [shiftOut, if_neg hne]
  clear hne
  induction k generalizing n with
  | zero =>
    rw [shiftOut]
    rfl
  | succ k ih =>
    have hne : BitVec.twoPow 16 k ≠ 0 := by
      intro h
      have hbit := congrArg (fun x : BitVec 16 => x.getLsbD k) h
      simp [show k < 16 by omega] at hbit
    rw [twoPow_shift hk, shiftOut, if_neg hne, ih (by omega)]
    omega

/-- The line of a single-bit pin is that of its number. -/
theorem getIrqNumber_twoPow {k : Nat} (hk : k < 16) :
    getIrqNumber (BitVec.twoPow 16 k) = irqOfPinNumber k := by
  unfold getIrqNumber
  cases k with
  | zero =>
    rw [shiftOut]
    rfl
  | succ k => rw [twoPow_shift hk, shiftOut_twoPow (by omega), Nat.zero_add]

/-! ## The table -/

/-- What an entry is for. -/
def Subscription.key (e : Subscription π κ ξ) : π × BitVec 16 := (e.GPIOPort, e.GPIOPin)

omit [DecidableEq π] in
theorem Subscription.isFor_iff (e : Subscription π κ ξ) : e.IsFor port pin ↔ e.key = (port, pin) :=
  Prod.mk_inj.symm

/-- At most one entry for a pin of a port. -/
def Unique (s : State π κ ξ) : Prop := (s.subscriptions.map Subscription.key).Nodup

/-- Every entry with a callback has its line enabled. -/
def Served (s : State π κ ξ) : Prop :=
  ∀ e ∈ s.subscriptions, e.callback.isSome → s.enabled (getIrqNumber e.GPIOPin) = true

theorem findSubscription_concat (l : List (Subscription π κ ξ)) (e : Subscription π κ ξ) :
    findSubscription port pin (l ++ [e]) =
      if e.IsFor port pin then some l.length else findSubscription port pin l := by
  unfold findSubscription
  rw [List.zipIdx_append, List.foldl_append]
  simp

/-- What the search finds: an entry for the pin, or that there is none. -/
theorem findSubscription_spec (port : π) (pin : BitVec 16) (l : List (Subscription π κ ξ)) :
    (∃ i e, findSubscription port pin l = some i ∧ l[i]? = some e ∧ e.IsFor port pin) ∨
      findSubscription port pin l = none ∧ ∀ e ∈ l, ¬ e.IsFor port pin := by
  induction l using List.reverseRecOn with
  | nil => exact .inr ⟨rfl, by simp⟩
  | append_singleton l e ih =>
    rw [findSubscription_concat]
    split
    next hfor => exact .inl ⟨l.length, e, rfl, by simp, hfor⟩
    next hfor =>
      obtain ⟨i, e', hfind, hget, hfor'⟩ | ⟨hfind, hnone⟩ := ih
      · refine .inl ⟨i, e', hfind, ?_, hfor'⟩
        rw [List.getElem?_append_left (List.getElem?_eq_some_iff.mp hget).1, hget]
      · refine .inr ⟨hfind, fun e' he' => ?_⟩
        rcases List.mem_append.mp he' with hl | hlast
        · exact hnone e' hl
        · rw [List.mem_singleton.mp hlast]
          exact hfor

/-- What a call of `GPIO_subscribe` does: nothing if the table is full, or an entry is
taken over or added, and the line is on. -/
theorem gpioSubscribe_cases (port : π) (pin : BitVec 16) (pull : BitVec 32)
    (callback : Option κ) (ctx : Option ξ) (s : State π κ ξ) :
    gpioSubscribe port pin pull callback ctx s = (false, s) ∨
      (gpioSubscribe port pin pull callback ctx s).1 = true ∧
      (gpioSubscribe port pin pull callback ctx s).2.enabled =
        Function.update s.enabled (getIrqNumber pin) true ∧
      ((∃ i e, s.subscriptions[i]? = some e ∧ e.IsFor port pin ∧
          (gpioSubscribe port pin pull callback ctx s).2.subscriptions =
            s.subscriptions.set i ⟨port, pin, callback, ctx⟩) ∨
        (∀ e ∈ s.subscriptions, ¬ e.IsFor port pin) ∧
          (gpioSubscribe port pin pull callback ctx s).2.subscriptions =
            s.subscriptions ++ [⟨port, pin, callback, ctx⟩]) := by
  unfold gpioSubscribe
  obtain ⟨i, e, hfind, hget, hfor⟩ | ⟨hfind, hnone⟩ :=
    findSubscription_spec port pin s.subscriptions
  · rw [hfind]
    exact .inr ⟨rfl, rfl, .inl ⟨i, e, hget, hfor, rfl⟩⟩
  · rw [hfind]
    dsimp only
    split
    · exact .inl rfl
    · exact .inr ⟨rfl, rfl, .inr ⟨hnone, rfl⟩⟩

theorem gpioUnsubscribe_subscriptions (s : State π κ ξ) :
    (gpioUnsubscribe port pin s).subscriptions =
      s.subscriptions.map (Subscription.cleared port pin) := by
  unfold gpioUnsubscribe
  dsimp only
  split <;> rfl

theorem cleared_key (e : Subscription π κ ξ) : (e.cleared port pin).key = e.key := by
  unfold Subscription.cleared
  split <;> rfl

/-- Some other port has an entry with the pin's number. -/
def PinInUse (port : π) (pin : BitVec 16) (s : State π κ ξ) : Prop :=
  ∃ e ∈ s.subscriptions, e.GPIOPin = pin ∧ e.GPIOPort ≠ port

theorem gpioUnsubscribe_enabled (port : π) (pin : BitVec 16) (s : State π κ ξ) :
    (PinInUse port pin s ∧ (gpioUnsubscribe port pin s).enabled = s.enabled) ∨
      (¬ PinInUse port pin s ∧ (gpioUnsubscribe port pin s).enabled =
        Function.update s.enabled (getIrqNumber pin) false) := by
  have hiff : (s.subscriptions.any fun e => ¬ e.IsFor port pin ∧ e.GPIOPin = pin) = true ↔
      PinInUse port pin s := by
    rw [List.any_eq_true]
    unfold PinInUse Subscription.IsFor
    constructor
    · rintro ⟨e, he, hin⟩
      obtain ⟨hfor, hpin⟩ := of_decide_eq_true hin
      exact ⟨e, he, hpin, fun hport => hfor ⟨hport, hpin⟩⟩
    · rintro ⟨e, he, hpin, hport⟩
      exact ⟨e, he, decide_eq_true ⟨fun hfor => hport hfor.1, hpin⟩⟩
  rw [← hiff]
  unfold gpioUnsubscribe
  dsimp only
  cases hany : s.subscriptions.any fun e => ¬ e.IsFor port pin ∧ e.GPIOPin = pin with
  | true => exact .inl ⟨rfl, rfl⟩
  | false => exact .inr ⟨Bool.false_ne_true, rfl⟩

/-! ## What the calls keep -/

theorem gpioSubscribe_unique (port : π) (pin : BitVec 16) (pull : BitVec 32) (callback : Option κ)
    (ctx : Option ξ) (h : Unique s) : Unique (gpioSubscribe port pin pull callback ctx s).2 := by
  unfold Unique at h ⊢
  obtain heq | ⟨-, -, ⟨i, e, hget, hfor, hsubs⟩ | ⟨hnone, hsubs⟩⟩ :=
    gpioSubscribe_cases port pin pull callback ctx s
  · rw [heq]
    exact h
  · -- the entry that is taken over has the key already
    have hkey : (s.subscriptions.map Subscription.key)[i]? = some (port, pin) := by
      rw [List.getElem?_map, hget, Option.map_some, e.isFor_iff.mp hfor]
    rw [hsubs, List.map_set]
    show ((s.subscriptions.map Subscription.key).set i (port, pin)).Nodup
    obtain ⟨hi, hval⟩ := List.getElem?_eq_some_iff.mp hkey
    rw [← hval, List.set_getElem_self]
    exact h
  · rw [hsubs, List.map_append, List.nodup_append]
    refine ⟨h, List.nodup_singleton _, fun key hkey key' hkey' heq => ?_⟩
    obtain ⟨e, he, rfl⟩ := List.mem_map.mp hkey
    rw [List.map_singleton, List.mem_singleton] at hkey'
    exact hnone e he (e.isFor_iff.mpr (heq.trans hkey'))

theorem gpioUnsubscribe_unique (h : Unique s) : Unique (gpioUnsubscribe port pin s) := by
  unfold Unique at h ⊢
  rw [gpioUnsubscribe_subscriptions, List.map_map]
  have hkeys : Subscription.key ∘ (Subscription.cleared port pin : Subscription π κ ξ → _) =
      Subscription.key := funext cleared_key
  rw [hkeys]
  exact h

theorem gpioSubscribe_served (port : π) (pin : BitVec 16) (pull : BitVec 32) (callback : Option κ)
    (ctx : Option ξ) (h : Served s) : Served (gpioSubscribe port pin pull callback ctx s).2 := by
  have hmem : ∀ subscriptions : List (Subscription π κ ξ),
      (∀ e ∈ subscriptions, e = ⟨port, pin, callback, ctx⟩ ∨ e ∈ s.subscriptions) →
      ∀ e ∈ subscriptions, e.callback.isSome →
        Function.update s.enabled (getIrqNumber pin) true (getIrqNumber e.GPIOPin) = true := by
    intro subscriptions hsubs e he hlive
    by_cases hirq : getIrqNumber e.GPIOPin = getIrqNumber pin
    · rw [hirq, Function.update_self]
    · rw [Function.update_of_ne hirq]
      obtain rfl | hold := hsubs e he
      · exact absurd rfl hirq
      · exact h e hold hlive
  unfold Served
  obtain heq | ⟨-, henabled, ⟨i, e, -, -, hsubs⟩ | ⟨-, hsubs⟩⟩ :=
    gpioSubscribe_cases port pin pull callback ctx s
  · rw [heq]
    exact h
  · rw [hsubs, henabled]
    exact hmem _ fun e he => (List.mem_or_eq_of_mem_set he).symm
  · rw [hsubs, henabled]
    refine hmem _ fun e he => ?_
    rw [List.mem_append, List.mem_singleton] at he
    exact he.symm

/-- The line of the pin has no other pin with a callback, or a port has the pin's number. -/
def MayUnsubscribe (port : π) (pin : BitVec 16) (s : State π κ ξ) : Prop :=
  PinInUse port pin s ∨ ∀ e ∈ s.subscriptions, e.callback.isSome →
    getIrqNumber e.GPIOPin = getIrqNumber pin → e.GPIOPin = pin

/-- The entries with a callback after an unsubscription. -/
theorem gpioUnsubscribe_live (port : π) (pin : BitVec 16) (s : State π κ ξ)
    (e : Subscription π κ ξ) :
    (e ∈ (gpioUnsubscribe port pin s).subscriptions ∧ e.callback.isSome) ↔
      e ∈ s.subscriptions ∧ e.callback.isSome ∧ ¬ e.IsFor port pin := by
  rw [gpioUnsubscribe_subscriptions, List.mem_map]
  constructor
  · rintro ⟨⟨e', he', rfl⟩, hlive⟩
    unfold Subscription.cleared at hlive ⊢
    split at hlive
    next => cases hlive
    next hfor =>
      rw [if_neg hfor]
      exact ⟨he', hlive, hfor⟩
  · rintro ⟨he, hlive, hfor⟩
    exact ⟨⟨e, he, if_neg hfor⟩, hlive⟩

/-- Exactly these calls do not switch off a line that is needed. -/
theorem gpioUnsubscribe_served_iff (h : Served s) :
    Served (gpioUnsubscribe port pin s) ↔ MayUnsubscribe port pin s := by
  unfold MayUnsubscribe
  obtain ⟨hin, henabled⟩ | ⟨hnot, henabled⟩ := gpioUnsubscribe_enabled port pin s
  · refine iff_of_true (fun e he hlive => ?_) (.inl hin)
    obtain ⟨he', hlive', -⟩ := (gpioUnsubscribe_live port pin s e).mp ⟨he, hlive⟩
    rw [henabled]
    exact h e he' hlive'
  · constructor
    · intro hserved
      refine .inr fun e he hlive hirq => ?_
      by_contra hpin
      -- the entry would be left without its line
      obtain ⟨he', hlive'⟩ :=
        (gpioUnsubscribe_live port pin s e).mpr ⟨he, hlive, fun hfor => hpin hfor.2⟩
      have hline := hserved e he' hlive'
      rw [henabled, hirq, Function.update_self] at hline
      cases hline
    · rintro (hin | hline) e he hlive
      · exact absurd hin hnot
      · obtain ⟨he', hlive', hfor⟩ := (gpioUnsubscribe_live port pin s e).mp ⟨he, hlive⟩
        have hirq : getIrqNumber e.GPIOPin ≠ getIrqNumber pin := by
          intro hirq
          have hpin := hline e he' hlive' hirq
          exact hnot ⟨e, he', hpin, fun hport => hfor ⟨hport, hpin⟩⟩
        rw [henabled, Function.update_of_ne hirq]
        exact h e he' hlive'

/-! ## What the table stands for -/

/-- The callback, and its context, that a pin of a port has. -/
def Handles (s : State π κ ξ) (key : π × BitVec 16) (call : κ × Option ξ) : Prop :=
  ∃ e ∈ s.subscriptions, e.key = key ∧ e.callback = some call.1 ∧ e.ctx = call.2

omit [DecidableEq π] in
theorem Unique.eq_of_key (h : Unique s) {e e' : Subscription π κ ξ} (he : e ∈ s.subscriptions)
    (he' : e' ∈ s.subscriptions) (hkey : e.key = e'.key) : e = e' :=
  List.inj_on_of_nodup_map h he he' hkey

omit [DecidableEq π] in
/-- An interrupt makes the calls of the pin's number, whatever the port is. -/
theorem mem_halGPIOEXTICallback (call : κ × Option ξ) :
    call ∈ halGPIOEXTICallback pin s ↔ ∃ port, Handles s (port, pin) call := by
  unfold halGPIOEXTICallback Handles Subscription.key
  rw [List.mem_filterMap]
  constructor
  · rintro ⟨e, he, hcall⟩
    split at hcall
    next hpin =>
      obtain ⟨callback, hcallback, rfl⟩ := Option.map_eq_some_iff.mp hcall
      exact ⟨e.GPIOPort, e, he, by rw [hpin], hcallback, rfl⟩
    next => cases hcall
  · rintro ⟨port, e, he, hkey, hcallback, hctx⟩
    obtain ⟨-, rfl⟩ := Prod.mk_inj.mp hkey
    refine ⟨e, he, ?_⟩
    rw [if_pos rfl, hcallback, Option.map_some, hctx]

/-- An unsubscription takes the callback away from one pin only. -/
theorem handles_gpioUnsubscribe (key : π × BitVec 16) (call : κ × Option ξ) :
    Handles (gpioUnsubscribe port pin s) key call ↔ key ≠ (port, pin) ∧ Handles s key call := by
  constructor
  · rintro ⟨e, he, rfl, hcallback, hctx⟩
    obtain ⟨he', -, hfor⟩ := (gpioUnsubscribe_live port pin s e).mp
      ⟨he, Option.isSome_iff_exists.mpr ⟨_, hcallback⟩⟩
    exact ⟨fun hkey => hfor (e.isFor_iff.mpr hkey), e, he', rfl, hcallback, hctx⟩
  · rintro ⟨hne, e, he, rfl, hcallback, hctx⟩
    have hlive := (gpioUnsubscribe_live port pin s e).mpr
      ⟨he, Option.isSome_iff_exists.mpr ⟨_, hcallback⟩, fun hfor => hne (e.isFor_iff.mp hfor)⟩
    exact ⟨e, hlive.1, rfl, hcallback, hctx⟩

/-- A subscription that finds room puts its entry into the table, and leaves the entries of
the other pins alone. -/
theorem gpioSubscribe_entries (port : π) (pin : BitVec 16) (pull : BitVec 32)
    (callback : Option κ) (ctx : Option ξ)
    (hroom : (gpioSubscribe port pin pull callback ctx s).1 = true) :
    ⟨port, pin, callback, ctx⟩ ∈ (gpioSubscribe port pin pull callback ctx s).2.subscriptions ∧
      ∀ e : Subscription π κ ξ, e.key ≠ (port, pin) →
        (e ∈ (gpioSubscribe port pin pull callback ctx s).2.subscriptions ↔
          e ∈ s.subscriptions) := by
  obtain heq | ⟨-, -, ⟨i, e, hget, hfor, hsubs⟩ | ⟨-, hsubs⟩⟩ :=
    gpioSubscribe_cases port pin pull callback ctx s
  · rw [heq] at hroom
    cases hroom
  · rw [hsubs]
    have hi := (List.getElem?_eq_some_iff.mp hget).1
    refine ⟨List.mem_set hi _, fun e' hne => ⟨fun he' => ?_, fun he' => ?_⟩⟩
    · obtain hold | rfl := List.mem_or_eq_of_mem_set he'
      · exact hold
      · exact absurd rfl hne
    · -- it is not the entry that is taken over
      obtain ⟨j, hj⟩ := List.mem_iff_getElem?.mp he'
      have hij : i ≠ j := by
        rintro rfl
        rw [hget, Option.some.injEq] at hj
        exact hne (hj ▸ e.isFor_iff.mp hfor)
      exact List.mem_iff_getElem?.mpr ⟨j, by rw [List.getElem?_set_ne hij, hj]⟩
  · rw [hsubs]
    refine ⟨List.mem_append_right _ (.head _), fun e' hne => ?_⟩
    rw [List.mem_append, List.mem_singleton]
    refine ⟨fun he' => he'.resolve_right ?_, .inl⟩
    rintro rfl
    exact hne rfl

/-- A subscription that finds room gives the callback to one pin only. -/
theorem handles_gpioSubscribe (h : Unique s) (pull : BitVec 32) (callback : Option κ)
    (ctx : Option ξ) (hroom : (gpioSubscribe port pin pull callback ctx s).1 = true)
    (key : π × BitVec 16) (call : κ × Option ξ) :
    Handles (gpioSubscribe port pin pull callback ctx s).2 key call ↔
      if key = (port, pin) then callback = some call.1 ∧ ctx = call.2 else Handles s key call := by
  have hunique := gpioSubscribe_unique port pin pull callback ctx h
  obtain ⟨hnew, hother⟩ := gpioSubscribe_entries port pin pull callback ctx hroom
  split
  next hkey =>
    subst hkey
    constructor
    · rintro ⟨e, he, hkey, hcallback, hctx⟩
      obtain rfl := hunique.eq_of_key he hnew hkey
      exact ⟨hcallback, hctx⟩
    · rintro ⟨hcallback, hctx⟩
      exact ⟨_, hnew, rfl, hcallback, hctx⟩
  next hkey =>
    constructor
    · rintro ⟨e, he, rfl, hrest⟩
      exact ⟨e, (hother e hkey).mp he, rfl, hrest⟩
    · rintro ⟨e, he, rfl, hrest⟩
      exact ⟨e, (hother e hkey).mpr he, rfl, hrest⟩

/-! ## Runs -/

/-- A call, with its arguments. -/
inductive Call (π : Type u) (κ : Type v) (ξ : Type w) where
  | subscribe (port : π) (pin : BitVec 16) (pullUpDown : BitVec 32) (callback : Option κ)
      (ctx : Option ξ)
  | unsubscribe (port : π) (pin : BitVec 16)

/-- The state after a call. -/
def Call.step (s : State π κ ξ) : Call π κ ξ → State π κ ξ
  | .subscribe port pin pullUpDown callback ctx =>
    (gpioSubscribe port pin pullUpDown callback ctx s).2
  | .unsubscribe port pin => gpioUnsubscribe port pin s

/-- The calls after each other. -/
def Calls (s : State π κ ξ) (call : Call π κ ξ) (t : State π κ ξ) : Prop := t = call.step s

/-- What keeps the lines on. -/
def Call.Careful (s : State π κ ξ) : Call π κ ξ → Prop
  | .subscribe .. => True
  | .unsubscribe port pin => MayUnsubscribe port pin s

theorem Call.step_unique (call : Call π κ ξ) (h : Unique s) : Unique (call.step s) := by
  cases call with
  | subscribe port pin pull callback ctx => exact gpioSubscribe_unique port pin pull callback ctx h
  | unsubscribe port pin => exact gpioUnsubscribe_unique h

theorem Call.step_served (call : Call π κ ξ) (h : Served s) (hcareful : call.Careful s) :
    Served (call.step s) := by
  cases call with
  | subscribe port pin pull callback ctx => exact gpioSubscribe_served port pin pull callback ctx h
  | unsubscribe port pin => exact (gpioUnsubscribe_served_iff h).mpr hcareful

/-- **Subscriptions.** From an empty table, no two entries are for the same pin of a
port; and if each unsubscription is careful, every callback has its line enabled. -/
theorem subscriptions_survive {calls : List (Call π κ ξ)} (hs : s.subscriptions = []) :
    (Run Calls s calls t → Unique t) ∧
      (Run (Guarded (fun s call => call.Careful s) Calls) s calls t → Unique t ∧ Served t) := by
  have hunique : Unique s := by
    unfold Unique
    rw [hs]
    exact List.nodup_nil
  have hserved : Served s := by
    intro e he
    rw [hs] at he
    cases he
  constructor
  · intro hrun
    refine hrun.invariant hunique fun t call u ht hcall => ?_
    obtain rfl : u = call.step t := hcall
    exact call.step_unique ht
  · intro hrun
    refine hrun.invariant (I := fun t => Unique t ∧ Served t) ⟨hunique, hserved⟩
      fun t call u ht hcall => ?_
    obtain ⟨hcareful, rfl⟩ : call.Careful t ∧ u = call.step t := hcall
    exact ⟨call.step_unique ht.1, call.step_served ht.2 hcareful⟩

/-- The table at start-up. -/
def boot : State π κ ξ where
  subscriptions := []
  fits := Nat.zero_le _
  risingEdge := fun _ _ => none
  pending := 0
  priority := fun _ => (0, 0)
  enabled := fun _ => false

/-- Pins 5 and 10 of a port have different lines. Pin 10 is given up, and pin 5 is still served. -/
theorem subscriptions_survive_two :
    ∃ t, Run (Guarded (fun s call => call.Careful s) Calls) (boot : State Unit Unit Unit)
        [.subscribe () (BitVec.twoPow 16 5) 0 (some ()) none,
          .subscribe () (BitVec.twoPow 16 10) 0 (some ()) none,
          .unsubscribe () (BitVec.twoPow 16 10)] t ∧
      ⟨(), BitVec.twoPow 16 5, some (), none⟩ ∈ t.subscriptions ∧ Unique t ∧ Served t := by
  obtain ⟨t, hrun, hmem⟩ : ∃ t, Run (Guarded (fun s call => call.Careful s) Calls)
      (boot : State Unit Unit Unit)
        [.subscribe () (BitVec.twoPow 16 5) 0 (some ()) none,
          .subscribe () (BitVec.twoPow 16 10) 0 (some ()) none,
          .unsubscribe () (BitVec.twoPow 16 10)] t ∧
      ⟨(), BitVec.twoPow 16 5, some (), none⟩ ∈ t.subscriptions := by
    refine ⟨_, .cons ⟨trivial, rfl⟩ (.cons ⟨trivial, rfl⟩
      (.single ⟨.inr fun e he _ hline => ?_, rfl⟩)), .head _⟩
    obtain rfl | rfl : e = ⟨(), BitVec.twoPow 16 5, some (), none⟩ ∨
        e = ⟨(), BitVec.twoPow 16 10, some (), none⟩ :=
      (List.mem_cons.mp he).imp_right List.mem_singleton.mp
    · rw [getIrqNumber_twoPow (by decide), getIrqNumber_twoPow (by decide)] at hline
      exact absurd hline (by decide)
    · rfl
  exact ⟨t, hrun, hmem, (subscriptions_survive rfl).2 hrun⟩

/-- Pins 5 and 6 of a port share a line, which is off once pin 6 is given up. -/
theorem unsubscribe_switches_off :
    ∃ t, Run Calls (boot : State Unit Unit Unit)
        [.subscribe () (BitVec.twoPow 16 5) 0 (some ()) none,
          .subscribe () (BitVec.twoPow 16 6) 0 (some ()) none,
          .unsubscribe () (BitVec.twoPow 16 6)] t ∧ ¬ Served t := by
  refine ⟨_, .cons rfl (.cons rfl (.single rfl)), ?_⟩
  have hboot : Served (boot : State Unit Unit Unit) := fun e he => by cases he
  have hserved := gpioSubscribe_served () (BitVec.twoPow 16 6) 0 (some ()) none
    (gpioSubscribe_served () (BitVec.twoPow 16 5) 0 (some ()) none hboot)
  intro hafter
  obtain ⟨e, -, -, hport⟩ | hline := (gpioUnsubscribe_served_iff hserved).mp hafter
  · exact hport rfl
  · have hpin := hline ⟨(), BitVec.twoPow 16 5, some (), none⟩ (.head _) rfl
      (by rw [getIrqNumber_twoPow (by decide), getIrqNumber_twoPow (by decide)]; rfl)
    exact absurd hpin (by decide)

end WODrive.Hal
