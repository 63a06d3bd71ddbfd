import WODrive.Can.Overtaken

/-!
# Heartbeats (communication/interface_can.cpp)

The heartbeats of an axis keep the distance that is configured (`heartbeats_spaced`), also when
the tick, which has 32 bits, wraps.
-/

namespace WODrive.Can

variable {s t : Server} {e : ServerEvent} {es : List ServerEvent} {state : State}
  {heartbeatRateMs : Fin axisCount → BitVec 32} {i : Fin axisCount}

/-- The heartbeats of an axis so far, and what it knows of the last one. -/
structure Spaced (rate : BitVec 32) (time : Nat) (heartbeats : List Nat) (axis : AxisPoint)
    (lastHeartbeat : BitVec 32) : Prop where
  spaced : heartbeats.Pairwise fun earlier later => earlier + rate.toNat ≤ later
  past : ∀ earlier ∈ heartbeats, earlier ≤ time
  sent : axis = .sendHeartbeat → ∀ last ∈ heartbeats.getLast?,
    lastHeartbeat = BitVec.ofNat 32 last
  sending : ∀ now point sent, axis = .write now point sent → ∀ last ∈ heartbeats.getLast?,
    now = BitVec.ofNat 32 last

section Spaced

variable {rate : BitVec 32} {time : Nat} {heartbeats : List Nat} {lastHeartbeat : BitVec 32}

/-- What the difference of two ticks says about the time between them. -/
theorem le_of_le_sub_ofNat {last : Nat} (hlast : last ≤ time)
    (h : rate ≤ BitVec.ofNat 32 time - BitVec.ofNat 32 last) : last + rate.toNat ≤ time := by
  rw [BitVec.le_def, BitVec.toNat_sub, BitVec.toNat_ofNat, BitVec.toNat_ofNat] at h
  omega

/-- A heartbeat that is due is late enough for all before it. -/
theorem Spaced.le_of_due (h : Spaced rate time heartbeats .sendHeartbeat lastHeartbeat)
    (hdue : rate ≤ BitVec.ofNat 32 time - lastHeartbeat) :
    ∀ earlier ∈ heartbeats, earlier + rate.toNat ≤ time := by
  obtain rfl | ⟨earliers, last, rfl⟩ := List.eq_nil_or_concat' heartbeats
  · simp
  · have hpast := h.past last (by simp)
    rw [h.sent rfl last (by simp)] at hdue
    have hgap := le_of_le_sub_ofNat hpast hdue
    have hpairwise := (List.pairwise_append.mp h.spaced).2.2
    intro earlier hmem
    obtain hmem | hmem := List.mem_append.mp hmem
    · have := hpairwise earlier hmem last (List.mem_singleton_self last)
      omega
    · rw [List.mem_singleton.mp hmem]
      exact hgap

theorem Spaced.due (h : Spaced rate time heartbeats .sendHeartbeat lastHeartbeat)
    (hdue : rate ≤ BitVec.ofNat 32 time - lastHeartbeat) (sent : List Sent) :
    Spaced rate time (heartbeats ++ [time]) (.write (BitVec.ofNat 32 time) .getError sent)
      lastHeartbeat := by
  refine ⟨List.pairwise_append.mpr ⟨h.spaced, List.pairwise_singleton .., ?_⟩, ?_, nofun, ?_⟩
  · intro earlier hmem later hlater
    rw [List.mem_singleton.mp hlater]
    exact h.le_of_due hdue earlier hmem
  · intro earlier hmem
    obtain hmem | hmem := List.mem_append.mp hmem
    · exact h.past earlier hmem
    · exact (List.mem_singleton.mp hmem).le
  · rintro now point sent' hwrite last hlast
    rw [List.getLast?_concat, Option.mem_some_iff] at hlast
    cases hwrite
    rw [hlast]

end Spaced

/-- The axis of a server. -/
abbrev Server.Spaced (i : Fin axisCount) (s : Server) : Prop :=
  Can.Spaced (s.heartbeatRateMs i) s.time (s.heartbeats i) (s.axes i) (s.lastHeartbeat i)

/-- Nothing that `Spaced` is about has changed, but some time may be over. -/
structure SameHeartbeats (i : Fin axisCount) (s t : Server) : Prop where
  heartbeats : t.heartbeats i = s.heartbeats i
  heartbeatRateMs : t.heartbeatRateMs i = s.heartbeatRateMs i
  axis : t.axes i = s.axes i
  lastHeartbeat : t.lastHeartbeat i = s.lastHeartbeat i
  time : s.time ≤ t.time

theorem SameHeartbeats.spaced (hst : SameHeartbeats i s t) (h : s.Spaced i) : t.Spaced i := by
  obtain ⟨hheartbeats, hrate, haxis, hlast, htime⟩ := hst
  unfold Server.Spaced
  rw [hheartbeats, hrate, haxis, hlast]
  exact ⟨h.spaced, fun earlier hmem => (h.past earlier hmem).trans htime, h.sent, h.sending⟩

/-- The thread of the axis takes a step. -/
theorem spaced_sendHeartbeat (h : s.Spaced i) : (s.sendHeartbeat i).Spaced i := by
  unfold Server.sendHeartbeat
  split
  next haxis =>
    dsimp only
    unfold Server.Spaced at h
    rw [haxis] at h
    split
    next hdue =>
      simp only [Server.Spaced, Function.update_self]
      exact h.due hdue.2 _
    next =>
      unfold Server.Spaced
      rw [haxis]
      exact h
  next now point haxis =>
    simp only [Server.Spaced, Function.update_self]
    exact ⟨h.spaced, h.past, fun _ last hlast => h.sending now point [] haxis last hlast, nofun⟩
  next now point sent rest haxis =>
    simp only [Server.Spaced, Function.update_self]
    refine ⟨h.spaced, h.past, nofun, ?_⟩
    rintro now' point' sent' hwrite last hlast
    cases hwrite
    exact h.sending now point (sent :: rest) haxis last hlast

theorem sameHeartbeats_sendHeartbeat {k : Fin axisCount} (hik : i ≠ k) (s : Server) :
    SameHeartbeats i s (s.sendHeartbeat k) := by
  unfold Server.sendHeartbeat
  split
  · dsimp only
    split
    · exact ⟨Function.update_of_ne hik .., rfl, Function.update_of_ne hik .., rfl, le_refl _⟩
    · exact ⟨rfl, rfl, rfl, rfl, le_refl _⟩
  · exact ⟨rfl, rfl, Function.update_of_ne hik .., Function.update_of_ne hik .., le_refl _⟩
  · exact ⟨rfl, rfl, Function.update_of_ne hik .., rfl, le_refl _⟩

theorem sameHeartbeats_serve (ht : s.serve = some t) : SameHeartbeats i s t := by
  unfold Server.serve at ht
  split at ht
  case h_3 =>
    dsimp only at ht
    split at ht <;> cases ht <;> exact ⟨rfl, rfl, rfl, rfl, le_refl _⟩
  case h_6 =>
    obtain ⟨⟨rxmsg, hal⟩, -, rfl⟩ := Option.map_eq_some_iff.mp ht
    exact ⟨rfl, rfl, rfl, rfl, le_refl _⟩
  case h_7 =>
    obtain ⟨⟨sent, state⟩, -, rfl⟩ := Option.map_eq_some_iff.mp ht
    exact ⟨rfl, rfl, rfl, rfl, le_refl _⟩
  all_goals
    cases ht
    exact ⟨rfl, rfl, rfl, rfl, le_refl _⟩

theorem sameHeartbeats_setBaudRate (host : Host) (s : Server) :
    SameHeartbeats i s (s.setBaudRate host) := by
  unfold Server.setBaudRate
  split
  · exact ⟨rfl, rfl, rfl, rfl, le_refl _⟩
  · dsimp only
    split <;> exact ⟨rfl, rfl, rfl, rfl, le_refl _⟩

theorem spaced_step (h : s.Spaced i) (ht : s.Steps e t) : t.Spaced i := by
  cases e with
  | serve => exact (sameHeartbeats_serve ht).spaced h
  | sendHeartbeat k =>
    cases ht
    by_cases hik : i = k
    · rw [← hik]
      exact spaced_sendHeartbeat h
    · exact (sameHeartbeats_sendHeartbeat hik s).spaced h
  | setBaudRate host =>
    cases ht
    exact (sameHeartbeats_setBaudRate host s).spaced h
  | tick =>
    cases ht
    exact SameHeartbeats.spaced (s := s) ⟨rfl, rfl, rfl, rfl, Nat.le_succ _⟩ h
  | rxFifo0MsgPending =>
    obtain rfl | ⟨-, rfl⟩ := rxFifo0MsgPending_cases ht
    · exact h
    · exact h
  | receive | transmit | acknowledge | update =>
    cases ht
    exact h

/-- **The heartbeats of an axis keep their distance**, however often the tick has wrapped. -/
theorem heartbeats_spaced (hrun : Run Server.Steps (.start state heartbeatRateMs) es s)
    (i : Fin axisCount) :
    (s.heartbeats i).Pairwise fun earlier later =>
      earlier + (s.heartbeatRateMs i).toNat ≤ later := by
  have hspaced : s.Spaced i :=
    hrun.invariant (I := Server.Spaced i) ⟨.nil, nofun, nofun, nofun⟩
      fun _ _ _ h ht => spaced_step h ht
  exact hspaced.spaced

theorem heartbeats_spaced_overtaking :
    ∃ s, Run Server.Steps .powerUp overtaking s ∧
      (s.heartbeats axis0).Pairwise fun earlier later =>
        earlier + (s.heartbeatRateMs axis0).toNat ≤ later := by
  obtain ⟨s, hrun, -⟩ := exists_overtaking
  exact ⟨s, hrun, heartbeats_spaced hrun axis0⟩

end WODrive.Can
