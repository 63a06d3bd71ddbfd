import WODrive.Fibre.Stream
import Mathlib.Data.List.Nodup
import Mathlib.Data.List.TakeWhile
import Mathlib.Tactic.FinCases

/-!
# Attributes by their path (fibre/cpp/include/fibre/introspection.hpp)

`Introspectable::get_child` takes a path apart at its dots and goes from an object to its
attribute, token by token, with the property tables of the types. A reference to a type
that is null is `none`, and so is what a function returns that dereferences one.

`Reaches` is the attribute with a chain of names, independently of how it is found.

- `strncmp_eq_zero_iff`: the comparison of a token with a name of a table;
- `getChild_resolves`: a path resolves to the attribute with the names of its tokens, if
  there is one, and to an invalid object otherwise.
-/

namespace WODrive.Fibre

universe u v

/-- A string in memory, up to its terminating zero. -/
abbrev Name := List Byte

/-- A full stop. -/
def dot : Byte := 46

/-- `strncmp`: the difference of the first characters that differ, and 0 if there are none
among the first `n` and before the end of the strings. -/
def strncmp (s t : Name) : Nat → Int
  | 0 => 0
  | n + 1 =>
    let a := s.headD 0
    let b := t.headD 0
    if a = b then
      if a = 0 then 0 else strncmp s.tail t.tail n
    else (a.toNat : Int) - b.toNat

/-- `PropertyInfo`, with the references to types from `P`. -/
structure PropertyInfo (P : Type u) where
  name : Name
  typeInfo : Option P

/-- The `TypeInfo` objects of a program, each with its table, and with the storage of an
attribute by its place in the table. -/
structure TypeInfo (P : Type u) (S : Type v) where
  propertyTable : P → List (PropertyInfo P)
  getChild : P → S → Nat → S
  /-- The names are strings. -/
  name_terminated : ∀ p, ∀ info ∈ propertyTable p, (0 : Byte) ∉ info.name
  /-- The attributes of a type have distinct names. -/
  nodup : ∀ p, ((propertyTable p).map (·.name)).Nodup

structure Introspectable (P : Type u) (S : Type v) where
  storage : S
  typeInfo : Option P

variable {P : Type u} {S : Type v}

/-- `is_valid` -/
def Introspectable.isValid (obj : Introspectable P S) : Bool := obj.typeInfo.isSome

namespace TypeInfo

variable (T : TypeInfo P S) (garbage : S)

/-- The loop of `get_direct_child` over the table of a type from place `i` on. An object
that is not found has a storage without a value, `garbage`. -/
def findChild (p : P) (storage : S) (name : Name) (length : Nat) :
    Nat → List (PropertyInfo P) → Introspectable P S
  | _, [] => ⟨garbage, none⟩
  | i, info :: table =>
    if strncmp name info.name length = 0 ∧ length = info.name.length then
      ⟨T.getChild p storage i, info.typeInfo⟩
    else findChild p storage name length (i + 1) table

/-- `get_direct_child`: `none` if it dereferences a `type_info_` that is null. -/
def getDirectChild (obj : Introspectable P S) (name : Name) (length : Nat) :
    Option (Introspectable P S) :=
  match obj.typeInfo with
  | none => none
  | some p => some (T.findChild garbage p obj.storage name length 0 (T.propertyTable p))

/-- The loop of `get_child`, with the characters from `begin` to `end`. -/
def walk (path : List Byte) (current : Introspectable P S) : Option (Introspectable P S) :=
  match path with
  | [] => some current
  | c :: cs =>
    if current.typeInfo.isSome then
      let token := (c :: cs).takeWhile (· ≠ dot)
      match T.getDirectChild garbage current (c :: cs) token.length with
      | none => none
      | some child => walk ((c :: cs).drop (token.length + 1)) child
    else some current
termination_by path.length
decreasing_by
  rw [List.length_drop, List.length_cons]
  omega

/-- `get_child(path, length)` with the `length` characters of the path. -/
def getChildOf (obj : Introspectable P S) (path : List Byte) : Option (Introspectable P S) :=
  T.walk garbage (path.takeWhile (· ≠ 0)) obj

/-! ## Attributes and paths -/

/-- The attribute of an object with a chain of names. -/
inductive Reaches : Introspectable P S → List Name → Introspectable P S → Prop
  | here (obj : Introspectable P S) : Reaches obj [] obj
  | child {obj result : Introspectable P S} {p : P} {i : Nat} {info : PropertyInfo P}
      {names : List Name} (hobj : obj.typeInfo = some p)
      (hinfo : (T.propertyTable p)[i]? = some info)
      (hrest : Reaches ⟨T.getChild p obj.storage i, info.typeInfo⟩ names result) :
      Reaches obj (info.name :: names) result

end TypeInfo

/-- Part of a path: a name that is not empty, and has no dot. -/
structure IsToken (token : Name) : Prop where
  ne_nil : token ≠ []
  dot_not_mem : dot ∉ token
  terminated : (0 : Byte) ∉ token

/-- The tokens with dots between them. -/
def joined : List Name → List Byte
  | [] => []
  | [token] => token
  | token :: tokens => token ++ dot :: joined tokens

/-- The first token of a path, and what comes after its dot. -/
theorem joined_cons {token : Name} (htoken : IsToken token) (tokens : List Name) :
    (joined (token :: tokens)).takeWhile (· ≠ dot) = token ∧
      (joined (token :: tokens)).drop (token.length + 1) = joined tokens ∧
      ∃ rest, joined (token :: tokens) = token ++ rest := by
  have hall : ∀ c ∈ token, decide (c ≠ dot) = true := by
    intro c hc
    refine decide_eq_true fun heq => htoken.dot_not_mem ?_
    rwa [← heq]
  cases tokens with
  | nil =>
    refine ⟨List.takeWhile_eq_self_iff.mpr hall, ?_, [], (List.append_nil _).symm⟩
    exact List.drop_eq_nil_of_le (Nat.le_succ _)
  | cons second tokens =>
    refine ⟨?_, ?_, _, rfl⟩
    · rw [joined, List.takeWhile_append_of_pos hall, List.takeWhile_cons_of_neg (by simp),
        List.append_nil]
      exact List.cons_ne_nil _ _
    · rw [joined, List.drop_append, List.drop_eq_nil_of_le (Nat.le_succ _),
        Nat.add_sub_cancel_left]
      · rfl
      · exact List.cons_ne_nil _ _

/-! ## Names of a table -/

theorem strncmp_cons (a b : Byte) (s t : Name) (n : Nat) :
    strncmp (a :: s) (b :: t) (n + 1) =
      if a = b then if a = 0 then 0 else strncmp s t n else (a.toNat : Int) - b.toNat := rfl

/-- A token is compared with a name up to its own length, so that only with the lengths
the comparison is one for equality. -/
theorem strncmp_eq_zero_iff {token name : Name} (htoken : (0 : Byte) ∉ token)
    (hname : (0 : Byte) ∉ name) (rest : List Byte) :
    strncmp (token ++ rest) name token.length = 0 ∧ token.length = name.length ↔
      name = token := by
  induction token generalizing name with
  | nil =>
    rw [List.length_nil, strncmp, eq_self, true_and, eq_comm]
    exact List.length_eq_zero_iff
  | cons a token ih =>
    have ha : a ≠ 0 := fun h => htoken (by rw [h]; exact List.mem_cons_self)
    cases name with
    | nil => simp
    | cons b name =>
      have hrest := @ih name (fun h => htoken (List.mem_cons_of_mem _ h))
        (fun h => hname (List.mem_cons_of_mem _ h))
      rw [List.length_cons, List.length_cons, List.cons_append, strncmp_cons]
      by_cases hab : a = b
      · subst hab
        rw [if_pos rfl, if_neg ha, Nat.succ_inj, hrest, List.cons_inj_right]
      · have hne : ((a.toNat : Int) - b.toNat) ≠ 0 := by
          intro hzero
          exact hab (BitVec.eq_of_toNat_eq (by omega))
        rw [if_neg hab]
        constructor
        · exact fun h => absurd h.1 hne
        · exact fun h => absurd (List.cons.inj h).1.symm hab

namespace TypeInfo

variable (T : TypeInfo P S) (garbage : S)

/-- What the loop over a table finds: the attribute with the name of the token, or that
there is none. -/
theorem findChild_spec (p : P) (storage : S) {token : Name} (htoken : (0 : Byte) ∉ token)
    (rest : List Byte) (table : List (PropertyInfo P))
    (htable : ∀ info ∈ table, (0 : Byte) ∉ info.name) (i : Nat) :
    (∃ j info, table[j]? = some info ∧ info.name = token ∧
        T.findChild garbage p storage (token ++ rest) token.length i table =
          ⟨T.getChild p storage (i + j), info.typeInfo⟩) ∨
      (∀ info ∈ table, info.name ≠ token) ∧
        T.findChild garbage p storage (token ++ rest) token.length i table =
          ⟨garbage, none⟩ := by
  induction table generalizing i with
  | nil => exact .inr ⟨fun _ h => absurd h List.not_mem_nil, rfl⟩
  | cons info table ih =>
    have hiff := strncmp_eq_zero_iff htoken (htable info List.mem_cons_self) rest
    rw [findChild]
    by_cases hname : info.name = token
    · rw [if_pos (hiff.mpr hname)]
      exact .inl ⟨0, info, rfl, hname, rfl⟩
    · rw [if_neg fun h => hname (hiff.mp h)]
      rcases ih (fun info h => htable info (List.mem_cons_of_mem _ h)) (i + 1) with
        ⟨j, info', hj, hinfo, heq⟩ | ⟨hnone, heq⟩
      · refine .inl ⟨j + 1, info', hj, hinfo, ?_⟩
        rw [heq, Nat.add_assoc, Nat.add_comm 1]
      · refine .inr ⟨fun info' hinfo' => ?_, heq⟩
        rcases List.mem_cons.mp hinfo' with rfl | hinfo'
        · exact hname
        · exact hnone info' hinfo'

/-- The names of a table are distinct, so that a name has one place. -/
theorem place_unique {p : P} {i j : Nat} {info info' : PropertyInfo P}
    (hi : (T.propertyTable p)[i]? = some info) (hj : (T.propertyTable p)[j]? = some info')
    (hname : info.name = info'.name) : i = j ∧ info = info' := by
  have hnames : ((T.propertyTable p).map (·.name))[i]? =
      ((T.propertyTable p).map (·.name))[j]? := by
    rw [List.getElem?_map, List.getElem?_map, hi, hj, Option.map_some, Option.map_some, hname]
  have hlt : i < ((T.propertyTable p).map (·.name)).length := by
    rw [List.length_map]
    exact (List.getElem?_eq_some_iff.mp hi).1
  obtain rfl := (List.getElem?_inj hlt (T.nodup p)).mp hnames
  exact ⟨rfl, Option.some.inj (hi.symm.trans hj)⟩

/-! ## The walk -/

/-- Without a type the walk ends. -/
theorem walk_invalid {current : Introspectable P S} (h : current.typeInfo = none)
    (path : List Byte) : T.walk garbage path current = some current := by
  cases path with
  | nil => rw [walk]
  | cons c cs => rw [walk, if_neg (by simp [h])]

/-- One token of a path, from an object with a type. -/
theorem walk_token {current : Introspectable P S} {p : P} (hp : current.typeInfo = some p)
    {token : Name} (htoken : IsToken token) (tokens : List Name) :
    ∃ rest, T.walk garbage (joined (token :: tokens)) current =
      T.walk garbage (joined tokens)
        (T.findChild garbage p current.storage (token ++ rest) token.length 0
          (T.propertyTable p)) := by
  obtain ⟨htake, hdrop, rest, hrest⟩ := joined_cons htoken tokens
  have hne : joined (token :: tokens) ≠ [] := by
    rw [hrest]
    exact List.append_ne_nil_of_left_ne_nil htoken.ne_nil rest
  obtain ⟨c, cs, hcs⟩ := List.exists_cons_of_ne_nil hne
  refine ⟨rest, ?_⟩
  rw [hcs] at htake hdrop
  rw [hcs, walk, if_pos (by simp [hp])]
  simp only [htake, hdrop, getDirectChild, hp]
  rw [← hcs, hrest]

/-- The walk along a path, by induction on its tokens. -/
theorem walk_resolves {tokens : List Name} (htokens : ∀ token ∈ tokens, IsToken token)
    (obj : Introspectable P S) :
    ∃ result, T.walk garbage (joined tokens) obj = some result ∧
      (∀ attr, T.Reaches obj tokens attr → result = attr) ∧
      ((∀ attr, ¬ T.Reaches obj tokens attr) → result.typeInfo = none) := by
  induction tokens generalizing obj with
  | nil =>
    refine ⟨obj, by rw [joined, walk], fun attr h => ?_, fun h => ?_⟩
    · cases h
      rfl
    · exact absurd (.here obj) (h obj)
  | cons token tokens ih =>
    have htoken := htokens token List.mem_cons_self
    cases hp : obj.typeInfo with
    | none =>
      refine ⟨obj, T.walk_invalid garbage hp _, fun attr h => ?_, fun _ => hp⟩
      cases h with
      | child hobj _ _ => exact absurd (hp.symm.trans hobj) (by simp)
    | some p =>
      obtain ⟨rest, hwalk⟩ := T.walk_token garbage hp htoken tokens
      rcases T.findChild_spec garbage p obj.storage htoken.terminated rest
        (T.propertyTable p) (T.name_terminated p) 0 with
        ⟨i, info, hi, hname, heq⟩ | ⟨hnone, heq⟩
      · -- the attribute with the name of the token
        rw [heq, Nat.zero_add] at hwalk
        obtain ⟨result, hresult, hfound, hlost⟩ :=
          ih (fun token h => htokens token (List.mem_cons_of_mem _ h))
            ⟨T.getChild p obj.storage i, info.typeInfo⟩
        refine ⟨result, hwalk.trans hresult, fun attr h => hfound attr ?_, fun h => ?_⟩
        · cases h with
          | child hobj hinfo hrest =>
            obtain rfl := Option.some.inj (hp.symm.trans hobj)
            obtain ⟨rfl, rfl⟩ := T.place_unique hi hinfo hname
            exact hrest
        · refine hlost fun attr hrest => h attr ?_
          rw [← hname]
          exact .child hp hi hrest
      · rw [heq, T.walk_invalid garbage (show (⟨garbage, none⟩ : Introspectable P S).typeInfo = none
          from rfl)] at hwalk
        refine ⟨_, hwalk, fun attr h => ?_, fun _ => rfl⟩
        cases h with
        | child hobj hinfo hrest =>
          obtain rfl := Option.some.inj (hp.symm.trans hobj)
          exact absurd rfl (hnone _ (List.mem_of_getElem? hinfo))

/-- **Paths resolve**: to the attribute whose chain of names are the tokens, and to an
invalid object if there is none. No null reference is dereferenced. -/
theorem getChild_resolves {tokens : List Name} (htokens : ∀ token ∈ tokens, IsToken token)
    {path : List Byte} (hpath : path.takeWhile (· ≠ 0) = joined tokens)
    (obj : Introspectable P S) :
    ∃ result, T.getChildOf garbage obj path = some result ∧
      (∀ attr, T.Reaches obj tokens attr → result = attr) ∧
      ((∀ attr, ¬ T.Reaches obj tokens attr) → result.isValid = false) := by
  obtain ⟨result, hresult, hfound, hlost⟩ := T.walk_resolves garbage htokens obj
  refine ⟨result, ?_, hfound, fun h => ?_⟩
  · rw [getChildOf, hpath]
    exact hresult
  · rw [Introspectable.isValid, hlost h]
    rfl

/-- A type with an attribute `a` of its own type and an attribute `ab` without one. -/
def twoNames : TypeInfo Unit Nat where
  propertyTable _ := [⟨[97], some ()⟩, ⟨[97, 98], none⟩]
  getChild _ storage i := 2 * storage + i
  name_terminated := by
    intro p info hinfo
    fin_cases hinfo <;> simp
  nodup _ := by simp

/-- The path `a.ab`, in a buffer that goes on behind it. -/
theorem getChild_resolves_twoNames :
    ∃ result, twoNames.getChildOf 0 ⟨1, some ()⟩ [97, 46, 97, 98, 0, 99] = some result ∧
      (∀ attr, twoNames.Reaches ⟨1, some ()⟩ [[97], [97, 98]] attr →
        result = attr) ∧
      ((∀ attr, ¬ twoNames.Reaches ⟨1, some ()⟩ [[97], [97, 98]] attr) →
        result.isValid = false) :=
  twoNames.getChild_resolves 0
    (by
      intro token htoken
      fin_cases htoken
      · exact ⟨by simp, by decide, by decide⟩
      · exact ⟨by simp, by decide, by decide⟩)
    (by decide) ⟨1, some ()⟩

end TypeInfo

end WODrive.Fibre
