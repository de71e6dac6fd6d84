import Mathlib.Logic.Function.Basic
import NgLog.Support.Bytes

/-!
# The flag registry

The registry maps the names of command-line options to flag objects, and keeps beside each flag its
registration number and its place in a module and group, how help displays it, and the types with
which other files have declared it. Each of these tables is updated by its own functions. Where the
source aborts the process, the model returns the reason.

An object (a flag, a declaration, a module or group) is identified by a number that stands for its
address while it lives. The registry holds nothing of a flag after `UnregisterFlag`, so an address
that is used again is a new number here. A registration number is a natural number: `2 ^ 64`
registrations would have to happen for the counter to wrap.

## Main definitions

* `Registry` — the tables
* `registerFlag`, `unregisterFlag`, `declare`, `undeclare`, `createModule`, `destroyModule`,
  `addGroup`, `addFlag`, `setFlagDisplay`, `setFlagHelpFormatter` — the functions that update them
* `findFlagLocked`, `isLongOptionLocked` — what an option on the command line selects
* `Call`, `call` — one of these calls, with its result
-/

namespace NgLog

namespace Flags

/-! ### The tables -/

/-- The bytes of a `std::string`, or of a C string before its terminator. -/
abbrev Text : Type := List Byte

/-- The address of an object that is allocated to be unique. -/
abbrev Identity : Type := ℕ

/-- What the registry reads of a `FlagBase`. -/
structure FlagBase where
  /-- Tells apart flag objects of the same name. -/
  object : Identity
  name : Text
  typeName : Text
  filename : Text
deriving DecidableEq

/-- `FlagEntry`; a null identity is `none`. -/
structure FlagEntry where
  registration : ℕ
  module : Text
  group : Text
  moduleIdentity : Option Identity
deriving DecidableEq

/-- `FlagDisplay`. -/
structure FlagDisplay where
  type : Text
  unit : Text
deriving DecidableEq

/-- `FlagDeclarationEntry`. -/
structure FlagDeclarationEntry where
  declaration : Identity
  type : Text
  filename : Text
deriving DecidableEq

/-- `GroupInfo`. -/
structure GroupInfo where
  name : Text
  identity : Identity
deriving DecidableEq

/-- `ModuleInfo`. -/
structure ModuleInfo where
  header : Text
  environmentPrefix : Text
  identity : Identity
  groups : List GroupInfo
deriving DecidableEq

/-- `Registry`, over the type of the help functions. -/
structure Registry (Formatter : Type) where
  flags : Text → Option FlagBase
  modules : Text → Option ModuleInfo
  moduleOrder : List Text
  flagHelpFormatters : Text → Option Formatter
  flagDisplays : Text → Option FlagDisplay
  entries : FlagBase → Option FlagEntry
  declarations : List (Text × FlagDeclarationEntry)
  nextRegistration : ℕ

/-- `FlagModule`, as constructed. -/
structure FlagModule where
  name : Text
  identity : Identity

/-- `FlagGroup`. -/
structure FlagGroup where
  module : Text
  name : Text
  moduleIdentity : Option Identity
  identity : Option Identity
deriving DecidableEq

/-- `FlagGroup()`, a group to which no flag can be added. -/
def FlagGroup.invalid : FlagGroup := ⟨[], [], none, none⟩

/-- Why the process is aborted. -/
inductive Abort
  | repeatedRegistration (flag : FlagBase)
  | invalidFlagName (flag : FlagBase)
  | reservedFlag (flag : FlagBase)
  | negationConflict (negation flag : FlagBase)
  | duplicateFlag (flag previous : FlagBase)
  | duplicateProcessFlag (flag : FlagBase)
  | unavailableProcessFlagRegistry
  | mismatchedDeclaration (name filename type : Text) (flag : FlagBase)
  | duplicateModule (name : Text)
  /-- The `std::out_of_range` of `entries.at`. -/
  | noEntry (flag : FlagBase)

/-- The answer of the registry that the copies of the library in a process share. -/
inductive ProcessFlagRegistration
  | registered
  | duplicate
  | unavailable
deriving DecidableEq

variable {Formatter : Type}

/-- The registry before the first call. -/
def Registry.empty : Registry Formatter :=
  { flags := fun _ => none
    modules := fun _ => none
    moduleOrder := []
    flagHelpFormatters := fun _ => none
    flagDisplays := fun _ => none
    entries := fun _ => none
    declarations := []
    nextRegistration := 1 }

/-! ### Names -/

/-- `std::isalpha` in the "C" locale. -/
def isAlpha (c : Byte) : Bool := (65 ≤ c && c ≤ 90) || (97 ≤ c && c ≤ 122)

/-- `std::isalnum` in the "C" locale. -/
def isAlnum (c : Byte) : Bool := isAlpha c || (48 ≤ c && c ≤ 57)

/-- `'_'`. -/
def underscore : Byte := 95

/-- `'-'`. -/
def dash : Byte := 45

/-- `IsValidFlagName`. -/
def isValidFlagName (name : Text) : Bool :=
  match name with
  | [] => false
  | c :: _ => (isAlpha c || c == underscore) && name.all fun c => isAlnum c || c == underscore

/-- `kBuiltinHelpName`. -/
def kBuiltinHelpName : Text := bytes "help"

/-- `kNegationPrefix`. -/
def kNegationPrefix : Text := bytes "no"

/-- `FlagTraits<bool>::TypeName()`. -/
def boolTypeName : Text := bytes "bool"

namespace Registry

/-! ### Flags -/

/-- The checks of `RegisterFlag` before the flag is added. -/
def checkNegation (r : Registry Formatter) (flag : FlagBase) : Except Abort Unit := do
  if flag.typeName = boolTypeName then
    if let some negation := r.flags (kNegationPrefix ++ flag.name) then
      throw (.negationConflict negation flag)
  if kNegationPrefix.isPrefixOf flag.name then
    if let some negated := r.flags (flag.name.drop kNegationPrefix.length) then
      if negated.typeName = boolTypeName then
        throw (.negationConflict flag negated)

/-- `RegisterFlag`, once the default of the flag is determined. -/
def registerFlag (r : Registry Formatter) (flag : FlagBase)
    (registration : ProcessFlagRegistration) : Except Abort (Registry Formatter) := do
  if (r.entries flag).isSome then
    throw (.repeatedRegistration flag)
  if !isValidFlagName flag.name then
    throw (.invalidFlagName flag)
  if flag.name = kBuiltinHelpName then
    throw (.reservedFlag flag)
  r.checkNegation flag
  if let some previous := r.flags flag.name then
    throw (.duplicateFlag flag previous)
  if registration = .duplicate then
    throw (.duplicateProcessFlag flag)
  if registration = .unavailable then
    throw .unavailableProcessFlagRegistry
  if let some (_, declaration) := r.declarations.find? fun d =>
      d.1 = flag.name ∧ d.2.type ≠ flag.typeName then
    throw (.mismatchedDeclaration flag.name declaration.filename declaration.type flag)
  return { r with
    flags := Function.update r.flags flag.name (some flag)
    entries := Function.update r.entries flag (some ⟨r.nextRegistration, [], [], none⟩)
    nextRegistration := r.nextRegistration + 1 }

/-- `UnregisterFlag`. -/
def unregisterFlag (r : Registry Formatter) (flag : FlagBase) : Registry Formatter :=
  if (r.entries flag).isNone then r
  else
    let r := { r with entries := Function.update r.entries flag none }
    if r.flags flag.name = some flag then
      { r with
        flags := Function.update r.flags flag.name none
        flagHelpFormatters := Function.update r.flagHelpFormatters flag.name none
        flagDisplays := Function.update r.flagDisplays flag.name none }
    else r

/-! ### Declarations -/

/-- The constructor of `FlagDeclaration`. -/
def declare (r : Registry Formatter) (declaration : Identity) (name type filename : Text) :
    Except Abort (Registry Formatter) := do
  if let some definition := r.flags name then
    if definition.typeName ≠ type then
      throw (.mismatchedDeclaration name filename type definition)
  return { r with declarations := r.declarations ++ [(name, ⟨declaration, type, filename⟩)] }

/-- The destructor of `FlagDeclaration`. -/
def undeclare (r : Registry Formatter) (declaration : Identity) : Registry Formatter :=
  { r with declarations := r.declarations.eraseP fun d => d.2.declaration = declaration }

/-! ### Modules and groups -/

/-- The constructor of `FlagModule`; `identity` is what `std::make_shared` allocates. -/
def createModule (r : Registry Formatter) (name header environmentPrefix : Text)
    (identity : Identity) : Except Abort (FlagModule × Registry Formatter) :=
  if name = [] then .ok (⟨name, identity⟩, r)
  else if (r.modules name).isSome then .error (.duplicateModule name)
  else
    .ok (⟨name, identity⟩,
      { r with
        modules := Function.update r.modules name (some ⟨header, environmentPrefix, identity, []⟩)
        moduleOrder := r.moduleOrder ++ [name] })

/-- The module of the name that has the identity. -/
def findModule (r : Registry Formatter) (name : Text) (identity : Option Identity) :
    Option ModuleInfo :=
  (r.modules name).filter fun info => some info.identity = identity

/-- The destructor of `FlagModule` takes a flag out of the module. -/
def detach (identity : Identity) (entry : FlagEntry) : FlagEntry :=
  if entry.moduleIdentity = some identity then ⟨entry.registration, [], [], none⟩ else entry

/-- The destructor of `FlagModule`. -/
def destroyModule (r : Registry Formatter) (m : FlagModule) : Registry Formatter :=
  if m.name = [] then r
  else if (r.findModule m.name (some m.identity)).isNone then r
  else
    { r with
      modules := Function.update r.modules m.name none
      moduleOrder := r.moduleOrder.filter fun name => name ≠ m.name
      entries := fun flag => (r.entries flag).map (detach m.identity) }

/-- `AddGroup`; `identity` is what `std::make_shared` allocates for a new group. -/
def addGroup (r : Registry Formatter) (m : FlagModule) (name : Text) (identity : Identity) :
    FlagGroup × Registry Formatter :=
  match r.findModule m.name (some m.identity) with
  | none => (.invalid, r)
  | some info =>
    if name = [] ∨ m.name = [] then (.invalid, r)
    else
      match info.groups.find? fun group => group.name = name with
      | some group => (⟨m.name, name, some m.identity, some group.identity⟩, r)
      | none =>
        (⟨m.name, name, some m.identity, some identity⟩,
          { r with
            modules := Function.update r.modules m.name
              (some { info with groups := info.groups ++ [⟨name, identity⟩] }) })

/-- The default that `AddFlag` takes from the environment. -/
def environmentDefault (environment : Text → Option Text) (trustsEnvironment : Bool)
    (environmentPrefix : Text) (flag : FlagBase) : Option Text :=
  if environmentPrefix ≠ [] ∧ trustsEnvironment then environment (environmentPrefix ++ flag.name)
  else none

/-- `AddFlag`: its result, and the argument of its call of `SetDefaultFromString` if it makes
one. -/
def addFlag (r : Registry Formatter) (group : FlagGroup) (flag : FlagBase)
    (environment : Text → Option Text) (trustsEnvironment : Bool) :
    Except Abort (Bool × Option Text × Registry Formatter) :=
  match r.findModule group.module group.moduleIdentity with
  | none => .ok (false, none, r)
  | some info =>
    if group.name = [] ∨ group.module = [] ∨ r.flags flag.name ≠ some flag then
      .ok (false, none, r)
    else
      match r.entries flag with
      | none => .error (.noEntry flag)
      | some entry =>
        let found := info.groups.any fun candidate =>
          candidate.name = group.name ∧ some candidate.identity = group.identity
        if !found ∨ entry.module ≠ [] then .ok (false, none, r)
        else
          .ok (true, environmentDefault environment trustsEnvironment info.environmentPrefix flag,
            { r with
              entries := Function.update r.entries flag
                (some ⟨entry.registration, group.module, group.name, group.moduleIdentity⟩) })

/-! ### Help -/

/-- `SetFlagDisplay`; a null pointer is `none`. -/
def setFlagDisplay (r : Registry Formatter) (flag : FlagBase) (type unit : Option Text) :
    Registry Formatter :=
  if r.flags flag.name ≠ some flag then r
  else
    { r with
      flagDisplays := Function.update r.flagDisplays flag.name
        (some ⟨type.getD [], unit.getD []⟩) }

/-- `SetFlagHelpFormatter`; an empty function is `none`. -/
def setFlagHelpFormatter (r : Registry Formatter) (name : Text) (formatter : Option Formatter) :
    Bool × Registry Formatter :=
  if (r.flags name).isNone then (false, r)
  else
    (true, { r with flagHelpFormatters := Function.update r.flagHelpFormatters name formatter })

/-! ### Options -/

/-- The name with `'_'` in place of `'-'`. -/
def normalized (name : Text) : Text := name.map fun c => if c = dash then underscore else c

/-- `FindFlagLocked`. -/
def findFlagLocked (r : Registry Formatter) (name : Text) : Option FlagBase :=
  match r.flags name with
  | some direct => some direct
  | none => if dash ∈ name then r.flags (normalized name) else none

/-- The flag that the option negates. -/
def findNegatedLocked (r : Registry Formatter) (name : Text) : Option FlagBase :=
  if kNegationPrefix.isPrefixOf name then r.findFlagLocked (name.drop kNegationPrefix.length)
  else none

/-- `IsLongOptionLocked`. -/
def isLongOptionLocked (r : Registry Formatter) (name : Text) : Bool :=
  name = kBuiltinHelpName || (r.findFlagLocked name).isSome ||
    ((r.findNegatedLocked name).filter fun flag => flag.typeName = boolTypeName).isSome

end Registry

/-! ### Calls -/

/-- A call, with what the allocator, the environment and the other copies of the library answer. -/
inductive Call (Formatter : Type)
  | registerFlag (flag : FlagBase) (registration : ProcessFlagRegistration)
  | unregisterFlag (flag : FlagBase)
  | declare (declaration : Identity) (name type filename : Text)
  | undeclare (declaration : Identity)
  | createModule (name header environmentPrefix : Text) (identity : Identity)
  | destroyModule (m : FlagModule)
  | addGroup (m : FlagModule) (name : Text) (identity : Identity)
  | addFlag (group : FlagGroup) (flag : FlagBase) (environment : Text → Option Text)
      (trustsEnvironment : Bool)
  | setFlagDisplay (flag : FlagBase) (type unit : Option Text)
  | setFlagHelpFormatter (name : Text) (formatter : Option Formatter)

/-- What a call returns. -/
inductive Result
  | done
  | module (m : FlagModule)
  | group (group : FlagGroup)
  | accepted (accepted : Bool)

/-- One call. -/
def call (r : Registry Formatter) : Call Formatter → Except Abort (Result × Registry Formatter)
  | .registerFlag flag registration => (r.registerFlag flag registration).map (.done, ·)
  | .unregisterFlag flag => .ok (.done, r.unregisterFlag flag)
  | .declare declaration name type filename =>
    (r.declare declaration name type filename).map (.done, ·)
  | .undeclare declaration => .ok (.done, r.undeclare declaration)
  | .createModule name header environmentPrefix identity =>
    (r.createModule name header environmentPrefix identity).map fun p => (.module p.1, p.2)
  | .destroyModule m => .ok (.done, r.destroyModule m)
  | .addGroup m name identity =>
    let (group, r) := r.addGroup m name identity
    .ok (.group group, r)
  | .addFlag group flag environment trustsEnvironment =>
    (r.addFlag group flag environment trustsEnvironment).map fun p => (.accepted p.1, p.2.2)
  | .setFlagDisplay flag type unit => .ok (.done, r.setFlagDisplay flag type unit)
  | .setFlagHelpFormatter name formatter =>
    let (accepted, r) := r.setFlagHelpFormatter name formatter
    .ok (.accepted accepted, r)

/-- The registry after a call that does not abort the process. -/
def step (r : Registry Formatter) (c : Call Formatter) : Option (Registry Formatter) :=
  match call r c with
  | .ok (_, r) => some r
  | .error _ => none

end Flags

end NgLog
