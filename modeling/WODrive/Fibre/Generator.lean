import WODrive.Library.Numbering

/-!
# The endpoint table (tools/interface_generator.py, fibre/cpp/endpoints_template.j2)

`generate_endpoint_table` goes through a tree of interfaces and makes two things of it at
once: the endpoints, from which the template makes the dispatch of the device, and the
definitions in JSON, from which the host knows the endpoints. Both get their numbers from
one counter.

The interfaces are given after their types have been resolved. Those of properties are made
by `make_property_type`, which keeps them in a dictionary under their full name; looking a
type up there gives the type itself.

- `generateEndpointTable_complete`: every number from the start index on, as many as have
  been counted, is that of exactly one endpoint and of exactly one entry in the
  definitions, and these are of the same kind; the entries are those of the attributes and
  functions of the interface;
- `endpointHandler_of_entry`: the device handles every number in the definitions with a
  function of its kind.
-/

namespace WODrive.Fibre.Generator

/-! ## Interfaces -/

/-- `join_name` -/
def joinName (names : List String) : String :=
  ".".intercalate ((names.flatMap (·.splitOn ".")).filter (· ≠ ""))

structure ValueType where
  fullname : String
  cName : String
  isEnum : Bool
deriving DecidableEq, Repr

/-- An input or output of a function. -/
structure Arg where
  name : String
  type : ValueType
deriving DecidableEq, Repr

structure Func where
  name : String
  fullname : String
  /-- The first input is the object itself: the `c_name` of its type. -/
  obj : String
  /-- The other inputs. -/
  args : List Arg
  out : List Arg
deriving DecidableEq, Repr

/-- `len(func['in'])` -/
def Func.inCount (func : Func) : Nat := func.args.length + 1

/-- `^fibre\.Property<([^>]*), (readonly|readwrite)>$`. A `$` also stands before a line feed
at the end. -/
def isPropertyName (fullname : String) : Bool :=
  let text := fullname.toList
  let text := if text.getLast? = some '\n' then text.dropLast else text
  let head := "fibre.Property<".toList
  [", readonly>".toList, ", readwrite>".toList].any fun tail =>
    let valueType := (text.drop head.length).take (text.length - head.length - tail.length)
    text == head ++ valueType ++ tail && valueType.all (· ≠ '>')

mutual

/-- An interface with its attributes and functions. -/
inductive Interface where
  /-- From a definition file. Its name is not that of a property. -/
  | object (fullname cName : String) (named : isPropertyName fullname = false)
    (attributes : Attributes) (functions : List Func)
  /-- From `make_property_type`. -/
  | property (valueType : ValueType) (mode : String)

/-- Attributes by their names, in order. -/
inductive Attributes where
  | nil
  | cons (name : String) (type : Interface) (rest : Attributes)

end

section PropertyType

variable (valueType : ValueType) (mode : String)

def propertyFullname : String :=
  joinName ["fibre", "Property<" ++ valueType.fullname ++ ", " ++ mode ++ ">"]

def propertyCName : String :=
  "Property<" ++ (if mode = "readonly" then "const " else "") ++ valueType.cName ++ ">"

/-- The function of a property type: `exchange`, or `read` if it is `readonly`. -/
def propertyFunction : Func :=
  if mode ≠ "readonly" then
    { name := "exchange"
      fullname := joinName [propertyFullname valueType mode, "exchange"]
      obj := propertyCName valueType mode
      args := [⟨"value", valueType⟩]
      out := [⟨"value", valueType⟩] }
  else
    { name := "read"
      fullname := joinName [propertyFullname valueType mode, "read"]
      obj := propertyCName valueType mode
      args := []
      out := [⟨"value", valueType⟩] }

end PropertyType

namespace Interface

def fullname : Interface → String
  | object fullname .. => fullname
  | property valueType mode => propertyFullname valueType mode

/-- The value type and the mode, of a type with the name of a property. -/
def property? : Interface → Option (ValueType × String)
  | object .. => none
  | property valueType mode =>
    if isPropertyName (propertyFullname valueType mode) then some (valueType, mode) else none

/-- The name tells which types these are. -/
theorem property?_isSome (intf : Interface) :
    intf.property?.isSome = isPropertyName intf.fullname := by
  cases intf with
  | object fullname cName named attributes functions => exact named.symm
  | property valueType mode =>
    rw [property?, Interface.fullname]
    split
    next h => exact h.symm
    next h => exact (Bool.eq_false_iff.mpr h).symm

end Interface

/-! ## Endpoints and definitions -/

/-- An endpoint: what is called, and with which inputs and outputs. -/
structure Endpoint where
  id : Nat
  function : Func
  inBindings : List (String × String)
  outBindings : List (String × String)

inductive Access where
  | r | rw
deriving DecidableEq, Repr

/-- The definition of a property, in JSON. -/
structure PropertyDefinition where
  name : String
  id : Nat
  type : String
  access : Access
deriving DecidableEq, Repr

/-- A definition, in JSON. -/
inductive Definition where
  | property (definition : PropertyDefinition)
  | object (name : String) (members : List Definition)
  | function (name : String) (id : Nat) (inputs outputs : List PropertyDefinition)

/-- `map_to_fibre01_type` -/
def mapToFibre01Type (t : ValueType) : String :=
  if t.isEnum then "int32" else if t.fullname = "float32" then "float" else t.fullname

/-- `generate_endpoint_for_property`, for a property with this name and type. -/
def generateEndpointForProperty (name : String) (valueType : ValueType)
    (mode attrBindto : String) (idx : Nat) : Endpoint × PropertyDefinition :=
  ({ id := idx
     function := propertyFunction valueType mode
     inBindings := [("obj", attrBindto)]
     outBindings := [] },
   { name := name
     id := idx
     type := mapToFibre01Type valueType
     access := if mode = "readonly" then .r else .rw })

/-- The variables of `generate_endpoint_table`. -/
structure Table where
  endpoints : List Endpoint
  definitions : List Definition
  cnt : Nat

/-- `endpoint_definitions` and `endpoints` are empty, and nothing is counted. -/
def Table.empty : Table := ⟨[], [], 0⟩

/-- The loop over inputs or outputs of a function, which are properties of one mode. -/
def argEndpoints (mode : String) (attrBindto : Arg → String) (idx : Nat) (args : List Arg) :
    List (Endpoint × PropertyDefinition) :=
  args.zipIdx.map fun (arg, i) =>
    generateEndpointForProperty arg.name arg.type mode (attrBindto arg) (idx + i)

section Loops

variable (cName bindto : String) (idx : Nat)

def inputEndpoints (func : Func) (cnt : Nat) : List (Endpoint × PropertyDefinition) :=
  argEndpoints "readwrite" (fun arg =>
    cName ++ "::get_" ++ func.name ++ "_in_" ++ arg.name ++ "_" ++ "(" ++ bindto ++ ")")
    (idx + cnt + 1) func.args

def outputEndpoints (func : Func) (cnt : Nat) : List (Endpoint × PropertyDefinition) :=
  argEndpoints "readonly" (fun arg =>
    cName ++ "::get_" ++ func.name ++ "_out_" ++ arg.name ++ "_" ++ "(" ++ bindto ++ ")")
    (idx + cnt + func.inCount) func.out

/-- The endpoint of a function itself. -/
def functionEndpoint (id : Nat) (func : Func) : Endpoint where
  id := id
  function := func
  inBindings := ("obj", bindto) :: func.args.map fun arg =>
    (arg.name, "(" ++ bindto ++ ")->" ++ func.name ++ "_in_" ++ arg.name ++ "_")
  outBindings := func.out.map fun arg =>
    (arg.name, "&(" ++ bindto ++ ")->" ++ func.name ++ "_out_" ++ arg.name ++ "_")

/-- One round of the loop over the functions. -/
def addFunction (t : Table) (func : Func) : Table :=
  let inputs := inputEndpoints cName bindto idx func t.cnt
  let outputs := outputEndpoints cName bindto idx func t.cnt
  { endpoints := t.endpoints ++ [functionEndpoint bindto (idx + t.cnt) func] ++
      inputs.map (·.1) ++ outputs.map (·.1)
    definitions := t.definitions ++
      [.function func.name (idx + t.cnt) (inputs.map (·.2)) (outputs.map (·.2))]
    cnt := t.cnt + (func.inCount + func.out.length) }

end Loops

mutual

/-- `generate_endpoint_table` -/
def generateEndpointTable : Interface → (bindto : String) → (idx : Nat) → Table
  | .object _ cName _ attributes functions, bindto, idx =>
    functions.foldl (addFunction cName bindto idx)
      (addAttributes cName bindto idx attributes .empty)
  | .property valueType mode, bindto, idx =>
    [propertyFunction valueType mode].foldl
      (addFunction (propertyCName valueType mode) bindto idx) .empty

/-- The loop over the attributes. -/
def addAttributes (cName bindto : String) (idx : Nat) : Attributes → Table → Table
  | .nil, t => t
  | .cons name type rest, t =>
    let attrBindto := cName ++ "::get_" ++ name ++ "(" ++ bindto ++ ")"
    match type.property? with
    | some (valueType, mode) =>
      let (endpoint, definition) :=
        generateEndpointForProperty name valueType mode attrBindto (idx + t.cnt)
      addAttributes cName bindto idx rest
        { endpoints := t.endpoints ++ [endpoint]
          definitions := t.definitions ++ [.property definition]
          cnt := t.cnt + 1 }
    | none =>
      let inner := generateEndpointTable type attrBindto (idx + t.cnt)
      addAttributes cName bindto idx rest
        { endpoints := t.endpoints ++ inner.endpoints
          definitions := t.definitions ++ [.object name inner.definitions]
          cnt := t.cnt + inner.cnt }

end

/-- `endpoint_handler`: the endpoint with a number, in the cases of the template. -/
def endpointHandler (endpoints : List Endpoint) (idx : Nat) : Option Endpoint :=
  endpoints.find? (·.id = idx)

/-! ## Entries -/

/-- A name with the type in JSON. -/
def Arg.signature (arg : Arg) : String × String := (arg.name, mapToFibre01Type arg.type)

/-- What the definitions say of a number. -/
inductive Kind where
  | property (type : String) (access : Access)
  | function (name : String) (inputs outputs : List (String × String))

/-- A number, and whose it is. -/
structure Entry where
  /-- The names of the objects and functions that it is in, and its own. -/
  path : List String
  id : Nat
  kind : Kind

/-- An entry of an object or a function with this name. -/
def Entry.within (name : String) (entry : Entry) : Entry :=
  { entry with path := name :: entry.path }

def PropertyDefinition.entry (d : PropertyDefinition) : Entry :=
  ⟨[d.name], d.id, .property d.type d.access⟩

def PropertyDefinition.signature (d : PropertyDefinition) : String × String := (d.name, d.type)

mutual

/-- The numbers in a definition: of properties, of functions, and of their inputs and
outputs. -/
def Definition.entries : Definition → List Entry
  | .property d => [d.entry]
  | .object name members => (entriesOf members).map (·.within name)
  | .function name id inputs outputs =>
    ⟨[name], id, .function name (inputs.map (·.signature)) (outputs.map (·.signature))⟩ ::
      (inputs ++ outputs).map (·.entry.within name)

/-- The numbers in definitions. -/
def entriesOf : List Definition → List Entry
  | [] => []
  | d :: ds => d.entries ++ entriesOf ds

end

/-- An endpoint is of a kind: it calls the function with this name, inputs and outputs, or
the function that reads or exchanges a property of this type. -/
def Endpoint.HasKind (e : Endpoint) : Kind → Prop
  | .property type access =>
    (access = .r ∧ e.function.name = "read" ∨ access = .rw ∧ e.function.name = "exchange") ∧
      e.function.out.map (fun arg => mapToFibre01Type arg.type) = [type]
  | .function name inputs outputs =>
    e.function.name = name ∧ e.function.args.map (·.signature) = inputs ∧
      e.function.out.map (·.signature) = outputs

/-- An endpoint and an entry belong together. -/
def Matches (e : Endpoint) (entry : Entry) : Prop := entry.id = e.id ∧ e.HasKind entry.kind

@[simp] theorem entriesOf_append (ds ds' : List Definition) :
    entriesOf (ds ++ ds') = entriesOf ds ++ entriesOf ds' := by
  induction ds with
  | nil => rfl
  | cons d ds ih => rw [List.cons_append, entriesOf, entriesOf, ih, List.append_assoc]

@[simp] theorem entriesOf_singleton (d : Definition) : entriesOf [d] = d.entries := by
  rw [entriesOf, entriesOf, List.append_nil]

/-! ## What is to be found -/

/-- An attribute, a function, or an input or output of one: its path and its kind. -/
abbrev Member : Type := List String × Kind

def Entry.member (entry : Entry) : Member := (entry.path, entry.kind)

/-- The members that a table defines. -/
def Table.members (t : Table) : List Member := (entriesOf t.definitions).map Entry.member

/-- A property of this type, which a host may read, or read and write. -/
def ValueType.kind (valueType : ValueType) (mode : String) : Kind :=
  .property (mapToFibre01Type valueType) (if mode = "readonly" then .r else .rw)

/-- A function, with its inputs and outputs. -/
def Func.members (func : Func) : List Member :=
  ([func.name], .function func.name (func.args.map (·.signature)) (func.out.map (·.signature))) ::
    (func.args.map (fun arg => ([func.name, arg.name], arg.type.kind "readwrite")) ++
      func.out.map fun arg => ([func.name, arg.name], arg.type.kind "readonly"))

mutual

/-- The members of an interface. -/
def Interface.members : Interface → List Member
  | .object _ _ _ attributes functions => attributes.members ++ functions.flatMap Func.members
  | .property valueType mode => (propertyFunction valueType mode).members

def Attributes.members : Attributes → List Member
  | .nil => []
  | .cons name type rest =>
    (match type.property? with
      | some (valueType, mode) => [([name], valueType.kind mode)]
      | none => type.members.map fun member => (name :: member.1, member.2)) ++ rest.members

end

/-! ## One round -/

/-- The endpoints have consecutive numbers, as many as have been counted, and the entries of
the definitions belong to them, one by one. -/
structure Consistent (idx : Nat) (t : Table) : Prop where
  count : t.cnt = t.endpoints.length
  numbered : Numbered Endpoint.id idx t.endpoints
  paired : List.Forall₂ Matches t.endpoints (entriesOf t.definitions)

theorem consistent_empty (idx : Nat) : Consistent idx .empty :=
  ⟨rfl, .nil _ _, .nil⟩

/-- Endpoints with their entries, behind those that are there. -/
theorem Consistent.append {idx : Nat} {t : Table} (h : Consistent idx t)
    {endpoints : List Endpoint} {definition : Definition}
    (hnumbered : Numbered Endpoint.id (idx + t.cnt) endpoints)
    (hpaired : List.Forall₂ Matches endpoints definition.entries) :
    Consistent idx ⟨t.endpoints ++ endpoints, t.definitions ++ [definition],
      t.cnt + endpoints.length⟩ := by
  refine ⟨?_, ?_, ?_⟩
  · rw [List.length_append, h.count]
  · rw [h.count] at hnumbered
    exact h.numbered.append hnumbered
  · rw [entriesOf_append, entriesOf_singleton]
    exact List.rel_append h.paired hpaired

/-- The endpoint of a property belongs to its definition. -/
theorem generateEndpointForProperty_matches (name : String) (valueType : ValueType)
    (mode attrBindto : String) (idx : Nat) :
    Matches (generateEndpointForProperty name valueType mode attrBindto idx).1
      (generateEndpointForProperty name valueType mode attrBindto idx).2.entry := by
  refine ⟨rfl, ?_⟩
  by_cases hmode : mode = "readonly"
  · simp [generateEndpointForProperty, PropertyDefinition.entry, Endpoint.HasKind,
      propertyFunction, hmode]
  · simp [generateEndpointForProperty, PropertyDefinition.entry, Endpoint.HasKind,
      propertyFunction, hmode]

section Arguments

variable (mode : String) (attrBindto : Arg → String) (idx : Nat) (args : List Arg)

theorem argEndpoints_length :
    ((argEndpoints mode attrBindto idx args).map (·.1)).length = args.length := by
  rw [List.length_map, argEndpoints, List.length_map, List.length_zipIdx]

theorem argEndpoints_numbered :
    Numbered Endpoint.id idx ((argEndpoints mode attrBindto idx args).map (·.1)) := by
  rw [argEndpoints, List.map_map]
  exact .zipIdx _ _ _ fun arg i => rfl

/-- The endpoints of inputs or outputs belong to their definitions. -/
theorem argEndpoints_matches (name : String) :
    List.Forall₂ Matches ((argEndpoints mode attrBindto idx args).map (·.1))
      (((argEndpoints mode attrBindto idx args).map (·.2)).map (·.entry.within name)) := by
  rw [argEndpoints, List.map_map, List.map_map, List.map_map, List.forall₂_map_left_iff,
    List.forall₂_map_right_iff, List.forall₂_same]
  exact fun p _ => generateEndpointForProperty_matches _ _ _ _ _

theorem argEndpoints_members (name : String) :
    (((argEndpoints mode attrBindto idx args).map (·.2)).map (·.entry.within name)).map
        Entry.member =
      args.map fun arg => ([name, arg.name], arg.type.kind mode) := by
  rw [argEndpoints, List.map_map, List.map_map, List.map_map]
  conv_rhs => rw [← List.zipIdx_map_fst 0 args]
  rw [List.map_map]
  rfl

theorem argEndpoints_signature :
    args.map (·.signature) =
      ((argEndpoints mode attrBindto idx args).map (·.2)).map (·.signature) := by
  rw [argEndpoints, List.map_map, List.map_map]
  conv_lhs => rw [← List.zipIdx_map_fst 0 args]
  rw [List.map_map]
  rfl

end Arguments

/-- A round of the loop over the functions. -/
theorem Consistent.addFunction {idx : Nat} {t : Table} (h : Consistent idx t)
    (cName bindto : String) (func : Func) :
    Consistent idx (addFunction cName bindto idx t func) := by
  set inputs := inputEndpoints cName bindto idx func t.cnt with hinputs
  set outputs := outputEndpoints cName bindto idx func t.cnt with houtputs
  have hlengthIn : (inputs.map (·.1)).length = func.args.length := argEndpoints_length ..
  have hlengthOut : (outputs.map (·.1)).length = func.out.length := argEndpoints_length ..
  have hout : Numbered Endpoint.id (idx + t.cnt + 1 + (inputs.map (·.1)).length)
      (outputs.map (·.1)) := by
    rw [hlengthIn, Nat.add_assoc (idx + t.cnt), Nat.add_comm 1]
    exact argEndpoints_numbered ..
  have hendpoints : Numbered Endpoint.id (idx + t.cnt)
      (functionEndpoint bindto (idx + t.cnt) func ::
        (inputs.map (·.1) ++ outputs.map (·.1))) :=
    .cons rfl (.append (argEndpoints_numbered ..) hout)
  have hpaired : List.Forall₂ Matches
      (functionEndpoint bindto (idx + t.cnt) func :: (inputs.map (·.1) ++ outputs.map (·.1)))
      (Definition.function func.name (idx + t.cnt) (inputs.map (·.2))
        (outputs.map (·.2))).entries := by
    rw [Definition.entries, List.map_append]
    exact .cons ⟨rfl, rfl, argEndpoints_signature .., argEndpoints_signature ..⟩
      (List.rel_append (argEndpoints_matches ..) (argEndpoints_matches ..))
  have hcount : (functionEndpoint bindto (idx + t.cnt) func ::
      (inputs.map (·.1) ++ outputs.map (·.1))).length = func.inCount + func.out.length := by
    rw [List.length_cons, List.length_append, hlengthIn, hlengthOut, Func.inCount,
      Nat.add_right_comm]
  have happend := h.append hendpoints hpaired
  rw [hcount] at happend
  rw [Generator.addFunction, List.append_assoc, List.append_assoc]
  exact happend

/-! ## The whole table -/

theorem Consistent.addFunctions {idx : Nat} (cName bindto : String) (functions : List Func)
    {t : Table} (h : Consistent idx t) :
    Consistent idx (functions.foldl (Generator.addFunction cName bindto idx) t) := by
  induction functions generalizing t with
  | nil => exact h
  | cons func functions ih => exact ih (h.addFunction cName bindto func)

/-- A table in a definition, behind what is there. -/
theorem Consistent.addObject {idx : Nat} {t inner : Table} (h : Consistent idx t) (name : String)
    (hinner : Consistent (idx + t.cnt) inner) :
    Consistent idx ⟨t.endpoints ++ inner.endpoints,
      t.definitions ++ [.object name inner.definitions], t.cnt + inner.cnt⟩ := by
  rw [hinner.count]
  refine h.append hinner.numbered ?_
  rw [Definition.entries, List.forall₂_map_right_iff]
  exact hinner.paired

/-- A property, behind what is there. -/
theorem Consistent.addProperty {idx : Nat} {t : Table} (h : Consistent idx t) (name : String)
    (valueType : ValueType) (mode attrBindto : String) :
    Consistent idx
      ⟨t.endpoints ++
          [(generateEndpointForProperty name valueType mode attrBindto (idx + t.cnt)).1],
        t.definitions ++ [.property
          (generateEndpointForProperty name valueType mode attrBindto (idx + t.cnt)).2],
        t.cnt + 1⟩ := by
  refine h.append (.cons rfl (.nil _ _)) ?_
  rw [Definition.entries]
  exact .cons (generateEndpointForProperty_matches ..) .nil

mutual

theorem generateEndpointTable_consistent : ∀ (intf : Interface) (bindto : String) (idx : Nat),
    Consistent idx (generateEndpointTable intf bindto idx)
  | .object _ cName _ attributes functions, bindto, idx => by
    rw [generateEndpointTable]
    exact (addAttributes_consistent attributes cName bindto (consistent_empty idx)).addFunctions
      cName bindto functions
  | .property valueType mode, bindto, idx => by
    rw [generateEndpointTable]
    exact (consistent_empty idx).addFunctions _ bindto _

theorem addAttributes_consistent : ∀ (attributes : Attributes) (cName bindto : String)
    {idx : Nat} {t : Table}, Consistent idx t →
      Consistent idx (addAttributes cName bindto idx attributes t)
  | .nil, _, _, _, _, h => by
    rw [addAttributes]
    exact h
  | .cons name type rest, cName, bindto, idx, t, h => by
    rw [addAttributes]
    cases type.property? with
    | some property =>
      exact addAttributes_consistent rest cName bindto (h.addProperty name property.1 property.2 _)
    | none =>
      exact addAttributes_consistent rest cName bindto
        (h.addObject name (generateEndpointTable_consistent type _ (idx + t.cnt)))

end

/-! ## The members -/

section Members

variable (t : Table)

theorem members_append (endpoints : List Endpoint) (definition : Definition) (cnt : Nat) :
    Table.members ⟨endpoints, t.definitions ++ [definition], cnt⟩ =
      t.members ++ definition.entries.map Entry.member := by
  rw [Table.members, entriesOf_append, entriesOf_singleton, List.map_append]
  rfl

theorem members_object (name : String) :
    (Definition.object name t.definitions).entries.map Entry.member =
      t.members.map fun member => (name :: member.1, member.2) := by
  rw [Definition.entries, List.map_map, Table.members, List.map_map]
  rfl

/-- A round of the loop over the functions defines a function with its inputs and outputs. -/
theorem addFunction_members (cName bindto : String) (idx : Nat) (func : Func) :
    (addFunction cName bindto idx t func).members = t.members ++ func.members := by
  rw [addFunction, members_append, Definition.entries, List.map_cons, List.map_append,
    List.map_append, Func.members]
  congr 2
  · exact Prod.ext rfl (congrArg₂ _ (argEndpoints_signature ..).symm
      (argEndpoints_signature ..).symm)
  · exact congrArg₂ _ (argEndpoints_members ..) (argEndpoints_members ..)

theorem addFunctions_members (cName bindto : String) (idx : Nat) (functions : List Func) :
    (functions.foldl (addFunction cName bindto idx) t).members =
      t.members ++ functions.flatMap Func.members := by
  induction functions generalizing t with
  | nil => exact (List.append_nil _).symm
  | cons func functions ih =>
    rw [List.foldl_cons, ih, addFunction_members, List.append_assoc, List.flatMap_cons]

end Members

mutual

theorem generateEndpointTable_members : ∀ (intf : Interface) (bindto : String) (idx : Nat),
    (generateEndpointTable intf bindto idx).members = intf.members
  | .object _ cName _ attributes functions, bindto, idx => by
    rw [generateEndpointTable, addFunctions_members, addAttributes_members, Interface.members]
    rfl
  | .property valueType mode, bindto, idx => by
    rw [generateEndpointTable, addFunctions_members, Interface.members]
    exact List.append_nil _

theorem addAttributes_members : ∀ (attributes : Attributes) (cName bindto : String) (idx : Nat)
    (t : Table), (addAttributes cName bindto idx attributes t).members =
      t.members ++ attributes.members
  | .nil, _, _, _, t => by
    rw [addAttributes, Attributes.members, List.append_nil]
  | .cons name type rest, cName, bindto, idx, t => by
    rw [addAttributes, Attributes.members]
    cases type.property? with
    | some property =>
      dsimp only
      rw [addAttributes_members rest, members_append, List.append_assoc]
      rfl
    | none =>
      dsimp only
      set attrBindto := cName ++ "::get_" ++ name ++ "(" ++ bindto ++ ")"
      rw [addAttributes_members rest, members_append, List.append_assoc,
        ← generateEndpointTable_members type attrBindto (idx + t.cnt), members_object]

end

/-- The numbers from `idx` on are those of the endpoints and of the entries, each once, and
the kind of an entry is that of the endpoint with its number. The entries are those of the
interface: every attribute and function has its endpoint, and nothing else has one. -/
structure Complete (intf : Interface) (idx : Nat) (t : Table) : Prop where
  members : t.members = intf.members
  endpoints : ∀ e ∈ t.endpoints, idx ≤ e.id ∧ e.id < idx + t.cnt
  entries : ∀ entry ∈ entriesOf t.definitions, idx ≤ entry.id ∧ entry.id < idx + t.cnt
  unique : ∀ i, idx ≤ i → i < idx + t.cnt → ∃ e entry,
    t.endpoints.filter (·.id = i) = [e] ∧
      (entriesOf t.definitions).filter (·.id = i) = [entry] ∧ e.HasKind entry.kind

theorem Consistent.complete {intf : Interface} {idx : Nat} {t : Table} (h : Consistent idx t)
    (hmembers : t.members = intf.members) : Complete intf idx t := by
  have hid : ∀ e entry, Matches e entry → entry.id = e.id := fun _ _ hmatches => hmatches.1
  refine ⟨hmembers, ?_, ?_, fun i hle hlt => ?_⟩
  · rw [h.count]
    exact h.numbered.mem_range
  · rw [h.count, h.paired.length_eq]
    exact (h.numbered.paired hid h.paired).mem_range
  · rw [h.count] at hlt
    obtain ⟨e, entry, he, hentry, hmatches⟩ := h.numbered.unique_pair hid h.paired hle hlt
    exact ⟨e, entry, he, hentry, hmatches.2⟩

/-- **The endpoint table is complete**, of every tree of interfaces and from every start
index on. -/
theorem generateEndpointTable_complete (intf : Interface) (bindto : String) (idx : Nat) :
    Complete intf idx (generateEndpointTable intf bindto idx) :=
  (generateEndpointTable_consistent intf bindto idx).complete
    (generateEndpointTable_members intf bindto idx)

/-- What the host finds under a number, the device handles. -/
theorem endpointHandler_of_entry (intf : Interface) (bindto : String) (idx : Nat) :
    ∀ entry ∈ entriesOf (generateEndpointTable intf bindto idx).definitions, ∃ e,
      endpointHandler (generateEndpointTable intf bindto idx).endpoints entry.id = some e ∧
        e.HasKind entry.kind := by
  intro entry hentry
  have hcomplete := (generateEndpointTable_consistent intf bindto idx).complete
    (generateEndpointTable_members intf bindto idx)
  obtain ⟨hle, hlt⟩ := hcomplete.entries entry hentry
  obtain ⟨e, entry', he, hentry', hkind⟩ := hcomplete.unique entry.id hle hlt
  have hmem : entry ∈ [entry'] := by
    rw [← hentry', List.mem_filter]
    exact ⟨hentry, by simp⟩
  obtain rfl := List.mem_singleton.mp hmem
  refine ⟨e, ?_, hkind⟩
  rw [endpointHandler, ← List.head?_filter, he, List.head?_cons]

end WODrive.Fibre.Generator
