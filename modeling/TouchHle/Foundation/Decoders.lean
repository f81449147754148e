import TouchHle.Foundation.Coding

namespace TouchHle.Foundation.NibArchiveDecoder

open Archives

inductive ValueVariant
  | int8 (i : Int8)
  | int16 (i : Int16)
  | int32 (i : Int32)
  | int64 (i : Int64)
  | bool (b : Bool)
  | float (f : Float32)
  | double (f : Float)
  | data (bytes : List UInt8)
  | nil
  | objectRef (idx : ℕ)

structure Object where
  className : String
  fallbackClasses : List String
  values : List (String × ValueVariant)

abbrev NibArchive := List Object

abbrev NibCoding (W : Type) := Coding W ValueVariant Unit

structure Guest (W : Type) where
  tryGetKnownClass : W → String → Bool × W
  getKnownClass : W → String → Archives.Id × W
  alloc : W → Archives.Id → Archives.Id × W
  initWithCoder : W → Archives.Id → NibCoding W

def getValueToDecodeForKey (archive : NibArchive) (currentObjectIdx : Option ℕ) (key : String) :
    Option ValueVariant := do
  let currentIdx ← currentObjectIdx
  let obj ← archive[currentIdx]?
  obj.values.lookup key

def asObjectRef : ValueVariant → Option ℕ
  | .objectRef idx => some idx
  | _ => none

def arrayIndices : List (String × ValueVariant) → List ℕ
  | [] => []
  | (key, value) :: values =>
    let items := values.filterMap fun p =>
      if p.1 = "UINibEncoderEmptyKey" then asObjectRef p.2 else none
    match key, value with
    | "NSInlinedValue", .bool true => items
    | "NSInlinedValue", _ => []
    | _, _ => items

def currentArray (archive : NibArchive) (currentObjectIdx : Option ℕ) : List ℕ :=
  match currentObjectIdx.bind (archive[·]?) with
  | none => []
  | some object => arrayIndices object.values

variable {W : Type}

def firstKnown (g : Guest W) : W → List String → Option String × W
  | w, [] => (none, w)
  | w, name :: names =>
    let (known, w) := g.tryGetKnownClass w name
    if known then (some name, w) else firstKnown g w names

def chosenClassName (g : Guest W) (w : W) (object : Object) : String × W :=
  let candidates := (object.className :: object.fallbackClasses).filter (· ≠ "")
  let (chosen, w) := firstKnown g w candidates
  ((chosen.or candidates.head?).getD object.className, w)

def unarchiveObj (g : Guest W) (archive : NibArchive) (s : Session W) (idx : ℕ) :
    Opening W ValueVariant Unit :=
  match s.alreadyUnarchived[idx]? with
  | none => .answer Archives.nil
  | some (some existing) => .answer existing
  | some none =>
    match archive[idx]? with
    | none => .answer Archives.nil
    | some object =>
      let (name, w) := chosenClassName g s.world object
      let (cls, w) := g.getKnownClass w name
      let (newObject, w) := g.alloc w cls
      .build none (g.initWithCoder w newObject)

def decoder (g : Guest W) (archive : NibArchive) : Coder W ValueVariant Unit where
  lookup := getValueToDecodeForKey archive
  reference := asObjectRef
  listed idx _ := currentArray archive idx
  rescopes := true
  opening := unarchiveObj g archive
  finish w x := (x, w)

def reading (archive : NibArchive) (w : W) : Session W := initForReading archive.length (some 0) w


end TouchHle.Foundation.NibArchiveDecoder

namespace TouchHle.Foundation.KeyedUnarchiver

open Archives

inductive Plist
  | array (values : List Plist)
  | boolean (b : Bool)
  | data (bytes : List UInt8)
  | date
  | dictionary (entries : List (String × Plist))
  | integer (i : ℤ)
  | real (f : Float)
  | string (s : String)
  | uid (key : ℕ)

namespace Plist

def asArray : Plist → Option (List Plist)
  | array values => some values
  | _ => none

def asDictionary : Plist → Option (List (String × Plist))
  | dictionary entries => some entries
  | _ => none

def asUid : Plist → Option ℕ
  | uid key => some key
  | _ => none

def asString : Plist → Option String
  | string s => some s
  | _ => none

end Plist

abbrev Dictionary := List (String × Plist)

inductive ListKey
  | objects
  | keys

def ListKey.name : ListKey → String
  | objects => "NS.objects"
  | keys => "NS.keys"

abbrev KeyedCoding (W : Type) := Coding W Plist ListKey

inductive Leaf
  | string (s : String)
  | longLong (i : ℤ)
  | unsignedLongLong (i : ℤ)
  | integer (i : ℤ)
  | double (f : Float)
  | bool (b : Bool)
  | data (bytes : List UInt8)

structure Guest (W : Type) where
  getKnownClass : W → String → Archives.Id × W
  alloc : W → Archives.Id → Archives.Id × W
  initWithCoder : W → Archives.Id → KeyedCoding W
  makeLeaf : W → Leaf → Archives.Id × W
  didDecodeObject : Option (W → Archives.Id → Archives.Id × W)

def objects (plist : Dictionary) : Option (List Plist) := (plist.lookup "$objects").bind Plist.asArray

def getValueToDecodeForKey (plist : Dictionary) (currentKey : Option ℕ) (key : String) :
    Option Plist := do
  let scopeValue ← match currentKey with
    | some currentUid => (← objects plist)[currentUid]?
    | none => plist.lookup "$top"
  let scope ← scopeValue.asDictionary
  scope.lookup key

def keysForKey (plist : Dictionary) (currentKey : Option ℕ) (key : ListKey) : List ℕ :=
  let keys := do
    let objects ← objects plist
    let item ← objects[← currentKey]?
    let dict ← item.asDictionary
    let values ← (dict.lookup key.name).bind Plist.asArray
    some (values.filterMap Plist.asUid)
  keys.getD []

variable {W : Type}

def notifyDidDecodeObject (g : Guest W) (w : W) (object : Archives.Id) : Archives.Id × W :=
  match g.didDecodeObject with
  | none => (object, w)
  | some didDecodeObject =>
    let (replacement, w) := didDecodeObject w object
    (if replacement = nil then object else replacement, w)

def integerLeaf (i : ℤ) : Leaf :=
  if -2 ^ 63 ≤ i ∧ i < 2 ^ 63 then .longLong i
  else if 0 ≤ i ∧ i < 2 ^ 64 then .unsignedLongLong i
  else .integer 0

def classOf (g : Guest W) (objects : List Plist) (s : Session W) (classKey : ℕ) :
    Option (Option (ℕ × Archives.Id) × Archives.Id × W) := do
  match ← s.alreadyUnarchived[classKey]? with
  | some existing => some (none, existing, s.world)
  | none =>
    let classDict ← (← objects[classKey]?).asDictionary
    let className ← (classDict.lookup "$classname").bind Plist.asString
    let (cls, w) := g.getKnownClass s.world className
    some (some (classKey, cls), cls, w)

def unarchiveItem (g : Guest W) (objects : List Plist) (s : Session W) :
    Plist → Opening W Plist ListKey
  | .dictionary dict =>
    match ((dict.lookup "$class").bind Plist.asUid).bind (classOf g objects s) with
    | none => .answer nil
    | some (resolved, cls, w) =>
      let (newObject, w) := g.alloc w cls
      .build resolved (g.initWithCoder w newObject)
  | .string text => made (.string text)
  | .integer i => made (integerLeaf i)
  | .real f => made (.double f)
  | .boolean b => made (.bool b)
  | .data bytes => if bytes.length < 2 ^ 32 then made (.data bytes) else .answer nil
  | .date | .array _ | .uid _ => .record false nil s.world
where
  made (leaf : Leaf) : Opening W Plist ListKey :=
    let (object, w) := g.makeLeaf s.world leaf
    .record true object w

def unarchiveKey (g : Guest W) (plist : Dictionary) (s : Session W) (key : ℕ) :
    Opening W Plist ListKey :=
  match s.alreadyUnarchived[key]? with
  | none => .answer nil
  | some (some existing) => .answer existing
  | some none =>
    match objects plist with
    | none => .answer nil
    | some objects =>
      match objects[key]? with
      | none => .answer nil
      | some item => unarchiveItem g objects s item

def decoder (g : Guest W) (plist : Dictionary) : Coder W Plist ListKey where
  lookup := getValueToDecodeForKey plist
  reference := Plist.asUid
  listed := keysForKey plist
  rescopes := false
  opening := unarchiveKey g plist
  finish := notifyDidDecodeObject g

def keyCount (plist : Dictionary) : ℕ := (objects plist).elim 0 List.length

def reading (plist : Dictionary) (w : W) : Session W := initForReading (keyCount plist) none w

end TouchHle.Foundation.KeyedUnarchiver
