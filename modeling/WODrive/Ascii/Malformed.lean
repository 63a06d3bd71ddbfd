import WODrive.Ascii.ProcessLine

/-!
# Malformed commands

What a command needs is the part of its format up to its last indispensable argument
(`neededFormat`). A command is malformed if this does not scan, if its motor does not
exist, or if it writes a text that is no value of its property.

`sscanf_append` says that a shorter format stores the first of the values of a longer one,
which ties what a command needs to what it scans; with the shape of the values
(`motor_values`, `string_values`) it tells which of the variables a command uses have been
stored to.

- `inert_of_motorCommand`: the commands for motors;
- `lineInert_iff`: no malformed command has an effect, and all that is stored was scanned
  from the line, unless `w` has a name and no value: it goes on with what the buffer for
  the value contained before.
-/

namespace WODrive.Ascii

open Scan Fibre

variable {F P S : Type}

/-! ## Formats -/

/-- The number of conversions of a format. -/
def conversions (format : List Directive) : Nat := format.countP Directive.converts

theorem conversions_replicate {d : Directive} (hd : d.converts = true) (n : Nat) :
    conversions (List.replicate n [.space, d]).flatten = n := by
  induction n with
  | zero => rfl
  | succ n ih =>
    have hpair : List.countP Directive.converts [.space, d] = 1 := by
      rw [List.countP_cons_of_neg (by decide), List.countP_cons_of_pos hd, List.countP_nil]
    rw [List.replicate_succ, List.flatten_cons, conversions, List.countP_append, hpair,
      Nat.add_comm]
    exact congrArg (· + 1) ih

theorem conversions_motorFormat (c : Char8) (n : Nat) : conversions (motorFormat c n) = n + 1 := by
  have hhead : List.countP Directive.converts [.literal c, .space, .unsigned] = 1 := rfl
  rw [motorFormat, conversions, List.countP_append, hhead, Nat.add_comm]
  exact congrArg (· + 1) (conversions_replicate rfl n)

theorem conversions_stringFormat (c : Char8) (n : Nat) : conversions (stringFormat c n) = n := by
  rw [stringFormat, conversions, List.countP_cons_of_neg (by simp [Directive.converts])]
  exact conversions_replicate rfl n

theorem motorFormat_append (c : Char8) {k n : Nat} (hk : k ≤ n) :
    motorFormat c n = motorFormat c k ++ (List.replicate (n - k) [.space, .float]).flatten := by
  have hsplit : List.replicate n [Directive.space, .float] =
      List.replicate k [.space, .float] ++ List.replicate (n - k) [.space, .float] := by
    rw [List.replicate_append_replicate, Nat.add_sub_cancel' hk]
  rw [motorFormat, motorFormat, List.append_assoc, ← List.flatten_append, ← hsplit]

section Scanning

variable (scanFloat : List Char8 → Option (F × List Char8))

/-- A shorter format stores the first values of a longer one. -/
theorem sscanf_append (short long : List Directive) (text : List Char8) :
    sscanf scanFloat short text =
      (sscanf scanFloat (short ++ long) text).take (conversions short) := by
  induction short generalizing text with
  | nil => rw [sscanf, conversions, List.countP_nil, List.take_zero]
  | cons d short ih =>
    cases d with
    | space =>
      rw [List.cons_append, sscanf, sscanf, ih, conversions, conversions,
        List.countP_cons_of_neg (by decide)]
    | literal c =>
      rw [List.cons_append, conversions, List.countP_cons_of_neg (by simp [Directive.converts])]
      cases text with
      | nil => rw [sscanf, sscanf, List.take_nil]
      | cons a text =>
        rw [sscanf, sscanf]
        split
        next => exact ih text
        next => exact List.take_nil.symm
    | unsigned =>
      rw [List.cons_append, sscanf, sscanf, conversions, List.countP_cons_of_pos (by rfl)]
      cases scanNumeral text with
      | none => rfl
      | some r => exact congrArg (_ :: ·) (ih r.2)
    | float =>
      rw [List.cons_append, sscanf, sscanf, conversions, List.countP_cons_of_pos (by rfl)]
      cases scanFloat (skipSpace text) with
      | none => rfl
      | some r => exact congrArg (_ :: ·) (ih r.2)
    | string width =>
      rw [List.cons_append, sscanf, sscanf, conversions, List.countP_cons_of_pos (by rfl)]
      split
      next => rfl
      next => exact congrArg (_ :: ·) (ih _)

/-- `%f` stores floating-point numbers. -/
theorem float_values (n : Nat) (text : List Char8) :
    ∃ floats : List F, floats.length ≤ n ∧
      sscanf scanFloat (List.replicate n [.space, .float]).flatten text =
        floats.map .float := by
  induction n generalizing text with
  | zero => exact ⟨[], Nat.le_refl _, rfl⟩
  | succ n ih =>
    rw [List.replicate_succ, List.flatten_cons, List.cons_append, List.cons_append,
      List.nil_append, sscanf, sscanf]
    cases scanFloat (skipSpace (skipSpace text)) with
    | none => exact ⟨[], Nat.zero_le _, rfl⟩
    | some r =>
      obtain ⟨floats, hlength, heq⟩ := ih r.2
      refine ⟨r.1 :: floats, Nat.succ_le_succ hlength, ?_⟩
      show Value.float r.1 :: sscanf scanFloat _ r.2 = _
      rw [heq, List.map_cons]

/-- The values of a command for a motor: none, or the motor and floating-point numbers. -/
theorem motor_values (c : Char8) (n : Nat) (text : List Char8) :
    sscanf scanFloat (motorFormat c n) text = [] ∨
      ∃ m, ∃ floats : List F, floats.length ≤ n ∧
        sscanf scanFloat (motorFormat c n) text = .unsigned m :: floats.map .float := by
  rw [motorFormat, List.cons_append, List.cons_append, List.cons_append, List.nil_append]
  cases text with
  | nil => exact .inl rfl
  | cons a text =>
    rw [sscanf]
    split
    next =>
      rw [sscanf, sscanf]
      cases scanNumeral (skipSpace text) with
      | none => exact .inl rfl
      | some r =>
        obtain ⟨floats, hlength, heq⟩ := float_values scanFloat n r.2
        exact .inr ⟨_, floats, hlength, congrArg (_ :: ·) heq⟩
    next => exact .inl rfl

/-- The values of a command for a property: strings. -/
theorem string_values (c : Char8) (n : Nat) (text : List Char8) :
    ∃ strings : List (List Char8), strings.length ≤ n ∧
      sscanf scanFloat (stringFormat c n) text = strings.map .string := by
  have hwords : ∀ (n : Nat) (text : List Char8),
      ∃ strings : List (List Char8), strings.length ≤ n ∧
        sscanf scanFloat (List.replicate n [.space, .string 255]).flatten text =
          strings.map .string := by
    intro n
    induction n with
    | zero => exact fun _ => ⟨[], Nat.le_refl _, rfl⟩
    | succ n ih =>
      intro text
      rw [List.replicate_succ, List.flatten_cons, List.cons_append, List.cons_append,
        List.nil_append, sscanf, sscanf]
      split
      next => exact ⟨[], Nat.zero_le _, rfl⟩
      next =>
        obtain ⟨strings, hlength, heq⟩ := ih ((skipSpace (skipSpace text)).drop
          (((skipSpace (skipSpace text)).takeWhile fun c => !isSpace c).take 255).length)
        exact ⟨_ :: strings, Nat.succ_le_succ hlength, congrArg (_ :: ·) heq⟩
  rw [stringFormat]
  cases text with
  | nil => exact ⟨[], Nat.zero_le _, rfl⟩
  | cons a text =>
    rw [sscanf]
    split
    next => exact hwords n text
    next => exact ⟨[], Nat.zero_le _, rfl⟩

end Scanning

/-! ## What a command needs -/

/-- The format of the arguments that a command needs. -/
def neededFormat (c : Char8) : Option (List Directive) :=
  if c ∈ [ch 'p', ch 'q', ch 'v', ch 'c', ch 't'] then some (motorFormat c 1)
  else if c ∈ [ch 'f', ch 'u'] then some (motorFormat c 0)
  else if c = ch 'r' then some (stringFormat c 1)
  else if c = ch 'w' then some (stringFormat c 2)
  else none

/-- The format of all arguments that a command takes. -/
def fullFormat (c : Char8) : List Directive :=
  if c ∈ [ch 'p', ch 'q'] then motorFormat c 3
  else if c = ch 'v' then motorFormat c 2
  else if c ∈ [ch 'c', ch 't'] then motorFormat c 1
  else if c ∈ [ch 'f', ch 'u'] then motorFormat c 0
  else if c = ch 'r' then stringFormat c 1
  else if c = ch 'w' then stringFormat c 2
  else []

/-- The values that can be scanned from a command. -/
def scannedValues (env : Env F P S) (cmd : List Char8) : List (Value F) :=
  sscanf env.floatText.scan (fullFormat (cmd.headD 0)) cmd

/-- A command that lacks an argument, that names a motor that does not exist, or whose
arguments do not scan. -/
inductive Malformed (env : Env F P S) (cmd : List Char8) : Prop where
  | arguments {format : List Directive} (hformat : neededFormat (cmd.headD 0) = some format)
    (hscan : (sscanf env.floatText.scan format cmd).length < conversions format) :
    Malformed env cmd
  | motor {format : List Directive} {m : BitVec 32} {values : List (Value F)}
    (hformat : neededFormat (cmd.headD 0) = some format)
    (hscan : sscanf env.floatText.scan format cmd = .unsigned m :: values)
    (hmotor : axisCount ≤ m.toNat) : Malformed env cmd
  | value {name text : List Char8} (hcmd : cmd.headD 0 = ch 'w')
    (hscan : scannedValues env cmd = [.string name, .string text])
    (hvalue : ∀ storage access, convertible env name = some (storage, access) →
      access.writable = true → fromString env.floatText text access.type = none) :
    Malformed env cmd

/-- What an effect stores are values of the command: the motor is the one scanned, a number
is one of those scanned, and the value of a property is that of the text scanned, for the
property with the name scanned. -/
def Effect.ScannedFrom (env : Env F P S) (values : List (Value F)) : Effect F S → Prop
  | setControlMode axis _ | setTrapTraj axis | inputPosUpdated axis | watchdogFeed axis =>
    ∃ m, values[0]? = some (.unsigned m) ∧ axis = m.toNat
  | setInputPos axis x | setInputVel axis x | setInputTorque axis x | setVelLimit axis x
  | setTorqueLim axis x =>
    (∃ m, values[0]? = some (.unsigned m) ∧ axis = m.toNat) ∧ .float x ∈ values
  | exchange storage type x =>
    ∃ name text access, values = [.string name, .string text] ∧
      convertible env name = some (storage, access) ∧
      setString env storage access text = some (.exchange storage type x)
  | saveConfiguration | eraseConfiguration | reboot => True

/-- If malformed, the command has no effect; and no effect stores anything else than what
was scanned. -/
structure Inert (env : Env F P S) (g : Locals F) (cmd : List Char8) : Prop where
  malformed : Malformed env cmd → (processCommand env g cmd).effects = []
  scanned : ∀ e ∈ (processCommand env g cmd).effects,
    e.ScannedFrom env (scannedValues env cmd)

/-- A property is written with what its buffer happens to contain. -/
def WritesGarbage (env : Env F P S) (g : Locals F) (cmd : List Char8) : Prop :=
  cmd.headD 0 = ch 'w' ∧ ∃ name storage access,
    sscanf env.floatText.scan (stringFormat (ch 'w') 2) cmd = [.string name] ∧
      convertible env name = some (storage, access) ∧ access.writable = true ∧
      fromString env.floatText g.value access.type ≠ none

/-! ## Commands for motors -/

variable {env : Env F P S} {g : Locals F} {cmd : List Char8}

/-- The variables after a motor and floating-point numbers have been stored. -/
theorem store_motor (g : Locals F) (m : BitVec 32) (floats : List F) :
    (g.store (.unsigned m :: floats.map .float)).motorNumber = m ∧
      ∀ i < floats.length,
        .float ((g.store (.unsigned m :: floats.map .float)).floats i) ∈
          (.unsigned m :: floats.map .float : List (Value F)) := by
  refine ⟨rfl, fun i hi => ?_⟩
  have hget : (Value.unsigned m :: floats.map Value.float)[i + 1]? = some (.float floats[i]) := by
    rw [List.getElem?_cons_succ, List.getElem?_map, List.getElem?_eq_getElem hi]
    rfl
  have hfloat : (g.store (.unsigned m :: floats.map .float)).floats i = floats[i] := by
    simp only [Locals.store, hget]
    rfl
  rw [hfloat]
  exact List.mem_of_getElem? hget

/-- A command for a motor that needs `k` numbers and takes `n` is inert, if what it does
stores values that are there when `k` numbers are. -/
theorem inert_of_motorCommand {c : Char8} {k n : Nat} (hk : k ≤ n) (hc : cmd.headD 0 = c)
    (hneeded : neededFormat c = some (motorFormat c k)) (hfull : fullFormat c = motorFormat c n)
    (hw : c ≠ ch 'w') {command : Nat → Output F S}
    (hprocess : processCommand env g cmd =
      motorCommand (sscanf env.floatText.scan (motorFormat c n) cmd).length (k + 1)
        (g.store (sscanf env.floatText.scan (motorFormat c n) cmd)).motorNumber command)
    (hcommand : ∀ m, ∀ floats : List F, k ≤ floats.length →
      sscanf env.floatText.scan (motorFormat c n) cmd = .unsigned m :: floats.map .float →
      ∀ e ∈ (command m.toNat).effects,
        e.ScannedFrom env (.unsigned m :: floats.map .float)) : Inert env g cmd := by
  have htake := sscanf_append env.floatText.scan (motorFormat c k)
    (List.replicate (n - k) [.space, .float]).flatten cmd
  rw [← motorFormat_append c hk, conversions_motorFormat] at htake
  have hvalues : scannedValues env cmd = sscanf env.floatText.scan (motorFormat c n) cmd := by
    rw [scannedValues, hc, hfull]
  rcases motor_values env.floatText.scan c n cmd with hnone | ⟨m, floats, hlength, hsome⟩
  · have heffects : (processCommand env g cmd).effects = [] := by
      rw [hprocess, hnone, motorCommand, List.length_nil, if_pos (Nat.succ_pos k)]
      rfl
    exact ⟨fun _ => heffects, fun e he => absurd he (by rw [heffects]; exact List.not_mem_nil)⟩
  rw [hsome] at hprocess htake hvalues
  rw [(store_motor g m floats).1, List.length_cons, List.length_map] at hprocess
  constructor
  · intro hmalformed
    rw [hprocess, motorCommand]
    cases hmalformed with
    | arguments hformat hscan =>
      rw [hc, hneeded] at hformat
      obtain rfl := Option.some.inj hformat
      rw [htake, conversions_motorFormat, List.length_take, List.length_cons,
        List.length_map] at hscan
      rw [if_pos (by omega)]
      rfl
    | motor hformat hscan hmotor =>
      rw [hc, hneeded] at hformat
      obtain rfl := Option.some.inj hformat
      rw [htake, List.take_succ_cons] at hscan
      obtain rfl := Value.unsigned.inj (List.cons.inj hscan).1
      by_cases hmany : floats.length + 1 < k + 1
      · rw [if_pos hmany]
        rfl
      · rw [if_neg hmany, if_pos hmotor]
        rfl
    | value hcmd _ _ => exact absurd (hc.symm.trans hcmd) hw
  · intro e he
    rw [hprocess, motorCommand] at he
    split at he
    next => exact absurd he List.not_mem_nil
    next hscan =>
      split at he
      next => exact absurd he List.not_mem_nil
      next =>
        rw [hvalues]
        exact hcommand m floats (by omega) hsome e he

/-- A command without effects is inert. -/
theorem inert_of_effects_nil (h : (processCommand env g cmd).effects = []) :
    Inert env g cmd :=
  ⟨fun _ => h, fun e he => absurd he (by rw [h]; exact List.not_mem_nil)⟩

/-- The motor of an effect. -/
theorem motor_scanned (m : BitVec 32) (values : List (Value F)) :
    ∃ m', (.unsigned m :: values : List (Value F))[0]? = some (.unsigned m') ∧
      m.toNat = m'.toNat := ⟨m, rfl, rfl⟩

/-- The number of values behind a motor. -/
theorem length_motor (m : BitVec 32) (floats : List F) :
    (Value.unsigned m :: floats.map Value.float).length = floats.length + 1 := by
  rw [List.length_cons, List.length_map]

theorem inert_of_positionCommand {c : Char8} (hc : cmd.headD 0 = c)
    (hneeded : neededFormat c = some (motorFormat c 1)) (hfull : fullFormat c = motorFormat c 3)
    (hw : c ≠ ch 'w') {third fourth : Nat → F → Effect F S}
    (hprocess : processCommand env g cmd = positionCommand env g c third fourth cmd)
    (hstores : ∀ m, ∀ values : List (Value F), ∀ x, .float x ∈ (.unsigned m :: values) →
      (third m.toNat x).ScannedFrom env (.unsigned m :: values) ∧
        (fourth m.toNat x).ScannedFrom env (.unsigned m :: values)) :
    Inert env g cmd := by
  unfold positionCommand at hprocess
  dsimp only at hprocess
  refine inert_of_motorCommand (show 1 ≤ 3 by decide) hc hneeded hfull hw hprocess ?_
  intro m floats hfloats hvalues e he
  rw [hvalues] at he
  obtain ⟨-, hstored⟩ := store_motor g m floats
  simp only [length_motor, List.mem_append, List.mem_cons, List.mem_ite_nil_right,
    List.not_mem_nil, or_false] at he
  rcases he with (((rfl | rfl) | ⟨hlt, rfl⟩) | ⟨hlt, rfl⟩) | rfl | rfl
  · exact motor_scanned m _
  · exact ⟨motor_scanned m _, hstored 0 (by omega)⟩
  · exact (hstores m _ _ (hstored 1 (by omega))).1
  · exact (hstores m _ _ (hstored 2 (by omega))).2
  · exact motor_scanned m _
  · exact motor_scanned m _

theorem inert_p (hc : cmd.headD 0 = ch 'p') : Inert env g cmd := by
  have hprocess : processCommand env g cmd = positionControl env g cmd := by
    rw [processCommand, if_pos hc]
  exact inert_of_positionCommand hc rfl rfl (by decide) hprocess fun m values x hx =>
    ⟨⟨motor_scanned m values, hx⟩, motor_scanned m values, hx⟩

theorem inert_q (hc : cmd.headD 0 = ch 'q') : Inert env g cmd := by
  have hprocess : processCommand env g cmd = positionControlWithLimits env g cmd := by
    rw [processCommand, if_neg (by rw [hc]; decide), if_pos hc]
  exact inert_of_positionCommand hc rfl rfl (by decide) hprocess fun m values x hx =>
    ⟨⟨motor_scanned m values, hx⟩, motor_scanned m values, hx⟩

theorem inert_v (hc : cmd.headD 0 = ch 'v') : Inert env g cmd := by
  have hprocess : processCommand env g cmd = velocityControl env g cmd := by
    rw [processCommand, if_neg (by rw [hc]; decide), if_neg (by rw [hc]; decide), if_pos hc]
  unfold velocityControl at hprocess
  dsimp only at hprocess
  refine inert_of_motorCommand (show 1 ≤ 2 by decide) hc rfl rfl (by decide) hprocess ?_
  intro m floats hfloats hvalues e he
  rw [hvalues] at he
  obtain ⟨-, hstored⟩ := store_motor g m floats
  simp only [length_motor, List.mem_append, List.mem_cons, List.mem_ite_nil_right,
    List.not_mem_nil, or_false] at he
  rcases he with ((rfl | rfl) | ⟨hlt, rfl⟩) | rfl
  · exact motor_scanned m _
  · exact ⟨motor_scanned m _, hstored 0 (by omega)⟩
  · exact ⟨motor_scanned m _, hstored 1 (by omega)⟩
  · exact motor_scanned m _

theorem inert_c (hc : cmd.headD 0 = ch 'c') : Inert env g cmd := by
  have hprocess : processCommand env g cmd = torqueControl env g cmd := by
    simp only [processCommand, hc]
    rfl
  unfold torqueControl at hprocess
  dsimp only at hprocess
  refine inert_of_motorCommand (Nat.le_refl 1) hc rfl rfl (by decide) hprocess ?_
  intro m floats hfloats hvalues e he
  rw [hvalues] at he
  obtain ⟨-, hstored⟩ := store_motor g m floats
  simp only [List.mem_cons, List.not_mem_nil, or_false] at he
  rcases he with rfl | rfl | rfl
  · exact motor_scanned m _
  · exact ⟨motor_scanned m _, hstored 0 (by omega)⟩
  · exact motor_scanned m _

theorem inert_t (hc : cmd.headD 0 = ch 't') : Inert env g cmd := by
  have hprocess : processCommand env g cmd = trapezoidalTrajectory env g cmd := by
    simp only [processCommand, hc]
    rfl
  unfold trapezoidalTrajectory at hprocess
  dsimp only at hprocess
  refine inert_of_motorCommand (Nat.le_refl 1) hc rfl rfl (by decide) hprocess ?_
  intro m floats hfloats hvalues e he
  rw [hvalues] at he
  obtain ⟨-, hstored⟩ := store_motor g m floats
  simp only [List.mem_cons, List.not_mem_nil, or_false] at he
  rcases he with rfl | rfl | rfl | rfl | rfl
  · exact motor_scanned m _
  · exact motor_scanned m _
  · exact ⟨motor_scanned m _, hstored 0 (by omega)⟩
  · exact motor_scanned m _
  · exact motor_scanned m _

theorem inert_u (hc : cmd.headD 0 = ch 'u') : Inert env g cmd := by
  have hprocess : processCommand env g cmd = updateWatchdog env g cmd := by
    simp only [processCommand, hc]
    rfl
  unfold updateWatchdog at hprocess
  dsimp only at hprocess
  refine inert_of_motorCommand (Nat.le_refl 0) hc rfl rfl (by decide) hprocess ?_
  intro m floats hfloats hvalues e he
  obtain rfl := List.mem_singleton.mp he
  exact motor_scanned m _

theorem inert_f (hc : cmd.headD 0 = ch 'f') : Inert env g cmd := by
  have hprocess : processCommand env g cmd = feedback env g cmd := by
    simp only [processCommand, hc]
    rfl
  unfold feedback at hprocess
  dsimp only at hprocess
  refine inert_of_motorCommand (Nat.le_refl 0) hc rfl rfl (by decide) hprocess ?_
  intro m floats hfloats hvalues e he
  exact absurd he List.not_mem_nil

/-! ## Properties -/

theorem inert_r (hc : cmd.headD 0 = ch 'r') : Inert env g cmd := by
  have hprocess : processCommand env g cmd = readProperty env g cmd := by
    simp only [processCommand, hc]
    rfl
  apply inert_of_effects_nil
  rw [hprocess, readProperty]
  split
  next => rfl
  next =>
    split
    next => rfl
    next => split <;> rfl

/-- What a property is written with has been converted. -/
theorem setString_eq_some {storage : S} {access : PropertyAccess F S} {text : List Char8}
    {e : Effect F S} (h : setString env storage access text = some e) :
    access.writable = true ∧ ∃ x, fromString env.floatText text access.type = some x ∧
      e = .exchange storage access.type x := by
  unfold setString at h
  split at h
  next hwritable =>
    obtain ⟨x, hx, rfl⟩ := Option.map_eq_some_iff.mp h
    exact ⟨hwritable, x, hx, rfl⟩
  next => exact absurd h (by simp)

/-- What `w` does, once it has a name. -/
theorem writeProperty_effects {values : List (Value F)}
    (hscan : sscanf env.floatText.scan (stringFormat (ch 'w') 2) cmd = values)
    (hname : values ≠ []) :
    (writeProperty env g cmd).effects =
      match convertible env (g.store values).name with
      | none => []
      | some (storage, access) => (setString env storage access (g.store values).value).toList := by
  have hlength : ¬ values.length < 1 := by
    have := List.length_pos_iff.mpr hname
    omega
  rw [writeProperty, hscan, if_neg hlength]
  cases convertible env (g.store values).name with
  | none => rfl
  | some property =>
    cases h : setString env property.1 property.2 (g.store values).value <;> simp [h, answer]

/-- With a name and no value it writes what its buffer contains. -/
theorem writeProperty_name {name : List Char8}
    (hscan : sscanf env.floatText.scan (stringFormat (ch 'w') 2) cmd = [.string name]) :
    (writeProperty env g cmd).effects =
      match convertible env name with
      | none => []
      | some (storage, access) => (setString env storage access g.value).toList :=
  writeProperty_effects hscan (List.cons_ne_nil _ _)

/-- With a name and a value it writes the value. -/
theorem writeProperty_value {name text : List Char8}
    (hscan : sscanf env.floatText.scan (stringFormat (ch 'w') 2) cmd =
      [.string name, .string text]) :
    (writeProperty env g cmd).effects =
      match convertible env name with
      | none => []
      | some (storage, access) => (setString env storage access text).toList :=
  writeProperty_effects hscan (List.cons_ne_nil _ _)

theorem process_w (hc : cmd.headD 0 = ch 'w') :
    processCommand env g cmd = writeProperty env g cmd := by
  simp only [processCommand, hc]
  rfl

theorem neededFormat_w (hc : cmd.headD 0 = ch 'w') :
    neededFormat (cmd.headD 0) = some (stringFormat (ch 'w') 2) := by
  rw [hc]
  rfl

/-- What writes garbage is malformed, and has an effect. -/
theorem not_inert_of_writesGarbage (h : WritesGarbage env g cmd) :
    Malformed env cmd ∧ (processCommand env g cmd).effects ≠ [] := by
  obtain ⟨hc, name, storage, access, hscan, hproperty, hwritable, hvalue⟩ := h
  obtain ⟨x, hx⟩ := Option.ne_none_iff_exists'.mp hvalue
  refine ⟨.arguments (neededFormat_w hc) ?_, ?_⟩
  · rw [hscan, conversions_stringFormat]
    exact Nat.lt_succ_self 1
  · rw [process_w hc, writeProperty_name hscan, hproperty]
    simp only [setString, hwritable, if_true, hx, Option.map_some, Option.toList_some]
    exact List.cons_ne_nil _ _

theorem scannedValues_w (hc : cmd.headD 0 = ch 'w') :
    scannedValues env cmd = sscanf env.floatText.scan (stringFormat (ch 'w') 2) cmd := by
  rw [scannedValues, hc]
  rfl

/-- With a name only, nothing is written if the buffer contains no value of the property. -/
theorem inert_w_name (hc : cmd.headD 0 = ch 'w') (hgarbage : ¬ WritesGarbage env g cmd)
    {name : List Char8}
    (hscan : sscanf env.floatText.scan (stringFormat (ch 'w') 2) cmd = [.string name]) :
    Inert env g cmd := by
  apply inert_of_effects_nil
  rw [process_w hc, writeProperty_name hscan]
  split
  next => rfl
  next storage access hproperty =>
    cases hset : setString env storage access g.value with
    | none => rfl
    | some e =>
      obtain ⟨hwritable, x, hx, -⟩ := setString_eq_some hset
      refine absurd ⟨hc, name, storage, access, hscan, hproperty, hwritable, ?_⟩ hgarbage
      rw [hx]
      exact Option.some_ne_none _

/-- With a name and a value, the value is written if it is one of the property. -/
theorem inert_w_value (hc : cmd.headD 0 = ch 'w') {name text : List Char8}
    (hscan : sscanf env.floatText.scan (stringFormat (ch 'w') 2) cmd =
      [.string name, .string text]) : Inert env g cmd := by
  have heffects : ∀ e ∈ (processCommand env g cmd).effects, ∃ storage access,
      convertible env name = some (storage, access) ∧
        setString env storage access text = some e := by
    intro e he
    rw [process_w hc, writeProperty_value hscan] at he
    split at he
    next => exact absurd he List.not_mem_nil
    next storage access hproperty =>
      exact ⟨storage, access, hproperty, Option.mem_toList.mp he⟩
  constructor
  · intro hmalformed
    refine List.eq_nil_iff_forall_not_mem.mpr fun e he => ?_
    obtain ⟨storage, access, hproperty, hset⟩ := heffects e he
    obtain ⟨hwritable, x, hx, -⟩ := setString_eq_some hset
    cases hmalformed with
    | arguments hformat hshort =>
      obtain rfl := Option.some.inj ((neededFormat_w hc).symm.trans hformat)
      rw [hscan, conversions_stringFormat] at hshort
      exact absurd hshort (Nat.lt_irrefl 2)
    | motor hformat hmotor _ =>
      obtain rfl := Option.some.inj ((neededFormat_w hc).symm.trans hformat)
      rw [hscan] at hmotor
      exact absurd (List.cons.inj hmotor).1 (by simp)
    | value _ hstrings hnone =>
      rw [scannedValues_w hc, hscan] at hstrings
      obtain ⟨rfl, rfl⟩ : name = _ ∧ text = _ := by simpa using hstrings
      rw [hnone storage access hproperty hwritable] at hx
      exact absurd hx (by simp)
  · intro e he
    obtain ⟨storage, access, hproperty, hset⟩ := heffects e he
    obtain ⟨-, x, -, rfl⟩ := setString_eq_some hset
    refine ⟨name, text, access, ?_, hproperty, hset⟩
    rw [scannedValues_w hc, hscan]

/-- `w` is inert, unless it writes what its buffer happens to contain. -/
theorem inert_w (hc : cmd.headD 0 = ch 'w') (hgarbage : ¬ WritesGarbage env g cmd) :
    Inert env g cmd := by
  obtain ⟨strings, hlength, hscan⟩ := string_values env.floatText.scan (ch 'w') 2 cmd
  match strings, hlength, hscan with
  | [], _, hscan =>
    apply inert_of_effects_nil
    rw [process_w hc, writeProperty, hscan]
    rfl
  | [name], _, hscan => exact inert_w_name hc hgarbage hscan
  | [name, text], _, hscan => exact inert_w_value hc hscan
  | _ :: _ :: _ :: _, hlength, _ => exact absurd hlength (by simp)

/-! ## Lines -/

/-- `s` takes no arguments, and stores nothing. -/
theorem inert_s (hc : cmd.headD 0 = ch 's') : Inert env g cmd := by
  have hprocess : processCommand env g cmd = system cmd := by
    simp only [processCommand, hc]
    rfl
  have hneeded : neededFormat (cmd.headD 0) = none := by
    rw [hc]
    rfl
  constructor
  · rintro (⟨hformat, -⟩ | ⟨hformat, -, -⟩ | ⟨hw, -, -⟩)
    · exact absurd (hneeded.symm.trans hformat) (by simp)
    · exact absurd (hneeded.symm.trans hformat) (by simp)
    · exact absurd (hc.symm.trans hw) (by decide)
  · intro e he
    rw [hprocess, system] at he
    split at he
    next => exact List.mem_singleton.mp he ▸ trivial
    next =>
      split at he
      next => exact List.mem_singleton.mp he ▸ trivial
      next =>
        split at he
        next => exact List.mem_singleton.mp he ▸ trivial
        next => exact absurd he List.not_mem_nil

/-- All commands but `w`. -/
theorem inert_of_ne_w (hw : cmd.headD 0 ≠ ch 'w') : Inert env g cmd := by
  by_cases hp : cmd.headD 0 = ch 'p'
  · exact inert_p hp
  by_cases hq : cmd.headD 0 = ch 'q'
  · exact inert_q hq
  by_cases hv : cmd.headD 0 = ch 'v'
  · exact inert_v hv
  by_cases hc : cmd.headD 0 = ch 'c'
  · exact inert_c hc
  by_cases ht : cmd.headD 0 = ch 't'
  · exact inert_t ht
  by_cases hf : cmd.headD 0 = ch 'f'
  · exact inert_f hf
  by_cases hs : cmd.headD 0 = ch 's'
  · exact inert_s hs
  by_cases hr : cmd.headD 0 = ch 'r'
  · exact inert_r hr
  by_cases hu : cmd.headD 0 = ch 'u'
  · exact inert_u hu
  -- help, the device info, an unknown command and the empty line
  apply inert_of_effects_nil
  rw [processCommand, if_neg hp, if_neg hq, if_neg hv, if_neg hc, if_neg ht, if_neg hf]
  split
  next => rfl
  next =>
    split
    next => rfl
    next => split <;> rfl

theorem inert_iff : Inert env g cmd ↔ ¬ WritesGarbage env g cmd := by
  constructor
  · intro h hgarbage
    obtain ⟨hmalformed, heffects⟩ := not_inert_of_writesGarbage hgarbage
    exact heffects (h.malformed hmalformed)
  · intro hgarbage
    by_cases hw : cmd.headD 0 = ch 'w'
    · exact inert_w hw hgarbage
    · exact inert_of_ne_w hw

/-- A line has no effect if its command is malformed or its checksum wrong, and stores
nothing else than what was scanned from its command. -/
structure LineInert (env : Env F P S) (g : Locals F) (line : List Char8) : Prop where
  rejected : validate env.floatText.scan line = none → (processLine env g line).1 = []
  malformed : ∀ cmd useChecksum, validate env.floatText.scan line = some (cmd, useChecksum) →
    Malformed env cmd → (processLine env g line).1 = []
  scanned : ∀ e ∈ (processLine env g line).1, ∃ cmd useChecksum,
    validate env.floatText.scan line = some (cmd, useChecksum) ∧
      e.ScannedFrom env (scannedValues env cmd)

/-- **When lines are inert**: unless a property is written with what the buffer for its
value contained before the line. -/
theorem lineInert_iff (env : Env F P S) (g : Locals F) (line : List Char8) :
    LineInert env g line ↔
      ∀ cmd useChecksum, validate env.floatText.scan line = some (cmd, useChecksum) →
        ¬ WritesGarbage env g cmd := by
  have hprocess : ∀ cmd useChecksum,
      validate env.floatText.scan line = some (cmd, useChecksum) →
        (processLine env g line).1 = (processCommand env g cmd).effects := by
    intro cmd useChecksum h
    rw [processLine, h]
  constructor
  · intro h cmd useChecksum hvalidate
    have heffects := hprocess cmd useChecksum hvalidate
    refine inert_iff.mp ⟨fun hmalformed => ?_, fun e he => ?_⟩
    · rw [← heffects]
      exact h.malformed cmd useChecksum hvalidate hmalformed
    · obtain ⟨cmd', useChecksum', hvalidate', hscanned⟩ := h.scanned e (by rwa [heffects])
      obtain ⟨rfl, -⟩ := Prod.mk.inj (Option.some.inj (hvalidate.symm.trans hvalidate'))
      exact hscanned
  · intro h
    have hnone : validate env.floatText.scan line = none → (processLine env g line).1 = [] := by
      intro hvalidate
      rw [processLine, hvalidate]
    refine ⟨hnone, fun cmd useChecksum hvalidate hmalformed => ?_, fun e he => ?_⟩
    · rw [hprocess cmd useChecksum hvalidate]
      exact (inert_iff.mpr (h cmd useChecksum hvalidate)).malformed hmalformed
    · match hvalidate : validate env.floatText.scan line with
      | none =>
        rw [hnone hvalidate] at he
        exact absurd he List.not_mem_nil
      | some (cmd, useChecksum) =>
        refine ⟨cmd, useChecksum, rfl, ?_⟩
        rw [hprocess cmd useChecksum hvalidate] at he
        exact (inert_iff.mpr (h cmd useChecksum hvalidate)).scanned e he

/-- A device with one property, `x` of type `uint32_t`, with this value. -/
def counterEnv (x : BitVec 32) : Env Unit Unit (BitVec 32) where
  types := ⟨fun _ => [⟨[ch 'x'], some ()⟩], fun _ storage _ => storage, by simp [ch], by simp⟩
  root := ⟨x, some ()⟩
  garbageStorage := 0
  stringConvertible _ := some ⟨.num .uint32, true, id⟩
  floatText := ⟨fun _ => none, fun _ => []⟩
  posEstimate _ := ()
  velEstimate _ := ()
  hwVersion := (3, 6, 56)
  fwVersion := (0, 5, 1)
  serialNumber := []

theorem convertible_counterEnv (x : BitVec 32) :
    convertible (counterEnv x) (str "x") = some (x, ⟨.num .uint32, true, id⟩) := by
  have hpath : (counterEnv x).types.getChildOf 0 (counterEnv x).root (str "x") =
      some ⟨x, some ()⟩ := by
    have htoken : (str "x").takeWhile (· ≠ 0) = [ch 'x'] := by decide
    rw [TypeInfo.getChildOf, htoken, TypeInfo.walk, if_pos (by rfl)]
    show (counterEnv x).types.walk 0 [] ⟨x, some ()⟩ = _
    rw [TypeInfo.walk]
  unfold convertible
  rw [show (counterEnv x).garbageStorage = 0 from rfl, hpath]
  rfl

/-- The local variables after the line `w x 7`. -/
def usedLocals : Locals Unit := ⟨0, fun _ => (), str "x", str "7"⟩

/-- The line `w x`, with the 7 of the line before it still in the buffer. -/
theorem lineInert_garbage :
    (processLine (counterEnv 5) usedLocals (str "w x")).1 =
        [.exchange 5 (.num .uint32) 7#32] ∧
      ¬ LineInert (counterEnv 5) usedLocals (str "w x") := by
  have hvalidate :
      validate (counterEnv 5).floatText.scan (str "w x") = some (str "w x", false) := by
    decide
  have hvalues : sscanf (counterEnv 5).floatText.scan (stringFormat (ch 'w') 2) (str "w x") =
      [.string (str "x")] := by
    decide
  have heffects : (processLine (counterEnv 5) usedLocals (str "w x")).1 =
      [.exchange 5 (.num .uint32) 7#32] := by
    rw [processLine, hvalidate]
    dsimp only
    rw [process_w rfl, writeProperty_name hvalues, convertible_counterEnv]
    rfl
  have hshort : (sscanf (counterEnv 5).floatText.scan (stringFormat (ch 'w') 2)
      (str "w x")).length < conversions (stringFormat (ch 'w') 2) := by
    rw [hvalues]
    decide
  refine ⟨heffects, fun h => ?_⟩
  have hnil := h.malformed (str "w x") false hvalidate (.arguments rfl hshort)
  exact absurd (heffects.symm.trans hnil) (List.cons_ne_nil _ _)

end WODrive.Ascii
