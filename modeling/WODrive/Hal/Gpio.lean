import Mathlib.Data.BitVec
import Mathlib.Logic.Function.Basic

/-!
# Interrupts of pins (wodrive_hal.c)

A table holds the callbacks for pins that trigger an interrupt. `GPIO_subscribe` puts an
entry into it, or takes over the one there is for the pin, and switches the interrupt
line on. `GPIO_unsubscribe` clears the callback, and switches the line off if no other
entry has the same pin number.

Ports, callbacks and their contexts are arbitrary types. Each call is atomic.
-/

namespace WODrive.Hal

universe u v w

/-- `IRQn_Type`, as far as `get_irq_number` returns it. -/
inductive Irqn where
  /-- number 0, "impossible" -/
  | WWDG
  | EXTI0
  | EXTI1
  | EXTI2
  | EXTI3
  | EXTI4
  | EXTI9_5
  | EXTI15_10
deriving DecidableEq, Repr

/-- The loop of `get_irq_number`. -/
def shiftOut (pin : BitVec 16) (pinNumber : Nat) : Nat :=
  if pin = 0 then pinNumber else shiftOut (pin >>> 1) (pinNumber + 1)
termination_by pin.toNat
decreasing_by
  have hpos : pin.toNat ≠ 0 := fun h => ‹¬ pin = 0› (BitVec.eq_of_toNat_eq h)
  rw [BitVec.toNat_ushiftRight, Nat.shiftRight_eq_div_pow]
  omega

/-- The `switch` of `get_irq_number`. -/
def irqOfPinNumber (pinNumber : Nat) : Irqn :=
  if pinNumber = 0 then .EXTI0
  else if pinNumber = 1 then .EXTI1
  else if pinNumber = 2 then .EXTI2
  else if pinNumber = 3 then .EXTI3
  else if pinNumber = 4 then .EXTI4
  else if pinNumber ≤ 9 then .EXTI9_5
  else if pinNumber ≤ 15 then .EXTI15_10
  else .WWDG

/-- `get_irq_number` -/
def getIrqNumber (pin : BitVec 16) : Irqn := irqOfPinNumber (shiftOut (pin >>> 1) 0)

/-- `subscription_t`; a null pointer is `none`. -/
structure Subscription (π : Type u) (κ : Type v) (ξ : Type w) where
  GPIOPort : π
  GPIOPin : BitVec 16
  callback : Option κ
  ctx : Option ξ
deriving DecidableEq, Repr

/-- `MAX_SUBSCRIPTIONS` -/
def maxSubscriptions : Nat := 10

/-- The first `n_subscriptions` entries of `subscriptions`, and the registers that are
written. -/
structure State (π : Type u) (κ : Type v) (ξ : Type w) where
  subscriptions : List (Subscription π κ ξ)
  fits : subscriptions.length ≤ maxSubscriptions
  /-- The pull of the pins that `HAL_GPIO_Init` has set to `GPIO_MODE_IT_RISING`. -/
  risingEdge : π → BitVec 16 → Option (BitVec 32)
  /-- The triggers that are pending, `EXTI->PR`. -/
  pending : BitVec 16
  /-- What `HAL_NVIC_SetPriority` has set. -/
  priority : Irqn → Nat × Nat
  /-- The lines that are enabled in the NVIC. -/
  enabled : Irqn → Bool

variable {π : Type u} {κ : Type v} {ξ : Type w} [DecidableEq π]

/-- The entry is for this pin of this port. -/
def Subscription.IsFor (port : π) (pin : BitVec 16) (e : Subscription π κ ξ) : Prop :=
  e.GPIOPort = port ∧ e.GPIOPin = pin

instance (port : π) (pin : BitVec 16) (e : Subscription π κ ξ) : Decidable (e.IsFor port pin) :=
  inferInstanceAs (Decidable (_ ∧ _))

/-- The search of `GPIO_subscribe`, which ends with the last entry for the pin. -/
def findSubscription (port : π) (pin : BitVec 16) (subscriptions : List (Subscription π κ ξ)) :
    Option Nat :=
  subscriptions.zipIdx.foldl (fun subscription (e, i) =>
    if e.IsFor port pin then some i else subscription) none

/-- The second half of `GPIO_subscribe`. -/
def setUpPin (port : π) (pin : BitVec 16) (pullUpDown : BitVec 32) (s : State π κ ξ) :
    State π κ ξ :=
  { s with
    risingEdge := Function.update s.risingEdge port
      (Function.update (s.risingEdge port) pin (some pullUpDown))
    -- clear any previous triggers
    pending := s.pending &&& ~~~pin
    priority := Function.update s.priority (getIrqNumber pin) (0, 0)
    enabled := Function.update s.enabled (getIrqNumber pin) true }

/-- `GPIO_subscribe` -/
def gpioSubscribe (port : π) (pin : BitVec 16) (pullUpDown : BitVec 32) (callback : Option κ)
    (ctx : Option ξ) (s : State π κ ξ) : Bool × State π κ ξ :=
  let subscription := { GPIOPort := port, GPIOPin := pin, callback, ctx }
  match findSubscription port pin s.subscriptions with
  | some i =>
    (true, setUpPin port pin pullUpDown { s with
      subscriptions := s.subscriptions.set i subscription
      fits := by rw [List.length_set]; exact s.fits })
  | none =>
    if h : s.subscriptions.length ≥ maxSubscriptions then (false, s)
    else
      (true, setUpPin port pin pullUpDown { s with
        subscriptions := s.subscriptions ++ [subscription]
        fits := by rw [List.length_append]; exact Nat.lt_of_not_le h })

/-- What `GPIO_unsubscribe` does to an entry. -/
def Subscription.cleared (port : π) (pin : BitVec 16) (e : Subscription π κ ξ) :
    Subscription π κ ξ :=
  if e.IsFor port pin then { e with callback := none, ctx := none } else e

/-- `GPIO_unsubscribe` -/
def gpioUnsubscribe (port : π) (pin : BitVec 16) (s : State π κ ξ) : State π κ ξ :=
  let isPinInUse := s.subscriptions.any fun e => ¬ e.IsFor port pin ∧ e.GPIOPin = pin
  let s := { s with
    subscriptions := s.subscriptions.map (Subscription.cleared port pin)
    fits := by rw [List.length_map]; exact s.fits }
  if !isPinInUse then
    { s with enabled := Function.update s.enabled (getIrqNumber pin) false }
  else s

/-- `HAL_GPIO_EXTI_Callback`: the calls that it makes. -/
def halGPIOEXTICallback (pin : BitVec 16) (s : State π κ ξ) : List (κ × Option ξ) :=
  s.subscriptions.filterMap fun e =>
    if e.GPIOPin = pin then e.callback.map fun callback => (callback, e.ctx) else none

end WODrive.Hal
