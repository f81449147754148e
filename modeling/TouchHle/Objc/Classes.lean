import TouchHle.Lib.Table
import TouchHle.Objc.Objects

/-! The class table of the Objective-C runtime: methods, `Method` handles and `IMP` pointers. -/

namespace TouchHle.Objc

open Lib

abbrev Class := Id

abbrev SEL := ℕ

abbrev VoidPtr := ℕ

inductive IMP
  | host (imp : ℕ)
  | guest (addr : VoidPtr)
  deriving DecidableEq

structure ClassHostObject where
  isMetaclass : Bool
  superclass : Class
  methods : SEL → Option IMP
  guestMethodSignatures : SEL → Option VoidPtr

def ClassHostObject.default : ClassHostObject := ⟨false, nil, fun _ => none, fun _ => none⟩

/-- What the runtime keeps for an object, as far as classes are concerned: placeholders stand for
classes without an implementation. -/
inductive HostObject
  | class (c : ClassHostObject)
  | unimplementedClass (isMetaclass : Bool)
  | fakeClass (isMetaclass : Bool)
  | other

structure ClassEnv where
  hostObjects : Class → Option HostObject
  phantoms : Class → ClassHostObject
  isa : Id → Class
  methodHandles : Table (Class × SEL) VoidPtr
  /-- The two words that a handle points to. -/
  handleWords : VoidPtr → Class × SEL
  impTokens : Table VoidPtr IMP
  hostImpTokens : Class × SEL → Option VoidPtr
  /-- What is code of the app, and which addresses the allocator has given out. -/
  code : VoidPtr → Bool
  heap : VoidPtr → Bool

namespace ClassEnv

def classHostObject (env : ClassEnv) (cls : Class) : Option ClassHostObject :=
  if cls = nil then none
  else match env.hostObjects cls with
    | some (.class c) => some c
    | _ => none

def borrow (env : ClassEnv) (cls : Class) : ClassHostObject :=
  match env.hostObjects cls with
  | some (.class c) => c
  | _ => env.phantoms cls

def modify (env : ClassEnv) (cls : Class) (f : ClassHostObject → ClassHostObject) : ClassEnv :=
  match env.hostObjects cls with
  | some (.class c) =>
    { env with hostObjects := Function.update env.hostObjects cls (some (.class (f c))) }
  | _ => { env with phantoms := Function.update env.phantoms cls (f (env.phantoms cls)) }

def getSuperclass (env : ClassEnv) (cls : Class) : Class := (env.borrow cls).superclass

def impAt (env : ClassEnv) (cls : Class) (sel : SEL) : Option IMP :=
  (env.classHostObject cls).bind fun c => c.methods sel

def signatureAt (env : ClassEnv) (cls : Class) (sel : SEL) : Option VoidPtr :=
  (env.classHostObject cls).bind fun c => c.guestMethodSignatures sel

def setImpAt (env : ClassEnv) (cls : Class) (sel : SEL) (imp : IMP) : ClassEnv :=
  env.modify cls fun c => { c with methods := Function.update c.methods sel (some imp) }

def setSignatureAt (env : ClassEnv) (cls : Class) (sel : SEL) (types : Option VoidPtr) : ClassEnv :=
  env.modify cls fun c =>
    { c with guestMethodSignatures := Function.update c.guestMethodSignatures sel types }

def findDefiningClass (env : ClassEnv) (sel : SEL) : ℕ → Class → Option Class
  | 0, _ => none
  | fuel + 1, curr =>
    if curr = nil then some nil
    else if (env.impAt curr sel).isSome then some curr
    else
      let next := env.getSuperclass curr
      if next = curr then some nil
      else env.findDefiningClass sel fuel next

def alloc (env : ClassEnv) (fresh : VoidPtr) : Checked ClassEnv := do
  assert (fresh ≠ 0 ∧ env.code fresh = false ∧ env.heap fresh = false)
  return { env with heap := Function.update env.heap fresh true }

def methodHandleFor (env : ClassEnv) (definingClass : Class) (sel : SEL) (fresh : VoidPtr) :
    Checked (VoidPtr × ClassEnv) :=
  match env.methodHandles.lookup (definingClass, sel) with
  | some existing => return (existing, env)
  | none => do
    let env ← env.alloc fresh
    return (fresh, { env with
      methodHandles := env.methodHandles.insert (definingClass, sel) fresh
      handleWords := Function.update env.handleWords fresh (definingClass, sel) })

def methodHandleDecode (env : ClassEnv) (m : VoidPtr) : Option (Class × SEL) :=
  if m = 0 then none
  else if env.methodHandles.entries.any (fun e => e.2 = m) then some (env.handleWords m)
  else none

def impToGuestPtr (env : ClassEnv) (cls : Class) (sel : SEL) (imp : IMP) (fresh : VoidPtr) :
    Checked (VoidPtr × ClassEnv) :=
  match imp with
  | .guest addr => return (addr, env)
  | .host _ =>
    match env.hostImpTokens (cls, sel) with
    | some token => return (token, { env with impTokens := env.impTokens.insert token imp })
    | none => do
      let env ← env.alloc fresh
      return (fresh, { env with
        hostImpTokens := Function.update env.hostImpTokens (cls, sel) (some fresh)
        impTokens := env.impTokens.insert fresh imp })

def guestPtrToImp (env : ClassEnv) (imp : VoidPtr) : Option IMP :=
  if imp = 0 then none
  else match env.impTokens.lookup imp with
    | some hostImp => some hostImp
    | none => some (.guest imp)

def optImpToGuestPtr (env : ClassEnv) (cls : Class) (sel : SEL) (imp : Option IMP)
    (fresh : VoidPtr) : Checked (VoidPtr × ClassEnv) :=
  match imp with
  | some imp => env.impToGuestPtr cls sel imp fresh
  | none => return (0, env)

def classGetInstanceMethod (env : ClassEnv) (fuel : ℕ) (cls : Class) (name : SEL)
    (fresh : VoidPtr) : Checked (VoidPtr × ClassEnv) :=
  if cls = nil ∨ name = 0 then return (0, env)
  else do
    let defining ← unwrap (env.findDefiningClass name fuel cls)
    if defining = nil then return (0, env)
    else env.methodHandleFor defining name fresh

def methodGetImplementation (env : ClassEnv) (m : VoidPtr) (fresh : VoidPtr) :
    Checked (VoidPtr × ClassEnv) :=
  match env.methodHandleDecode m with
  | none => return (0, env)
  | some (cls, sel) => env.optImpToGuestPtr cls sel (env.impAt cls sel) fresh

def classGetMethodImplementation (env : ClassEnv) (fuel : ℕ) (cls : Class) (name : SEL)
    (fresh : VoidPtr) : Checked (VoidPtr × ClassEnv) :=
  if cls = nil ∨ name = 0 then return (0, env)
  else do
    let defining ← unwrap (env.findDefiningClass name fuel cls)
    if defining = nil then return (0, env)
    else env.optImpToGuestPtr defining name (env.impAt defining name) fresh

def install (env : ClassEnv) (cls : Class) (sel : SEL) (imp : VoidPtr) : ClassEnv :=
  match env.guestPtrToImp imp with
  | some newImp => env.setImpAt cls sel newImp
  | none => env

def methodSetImplementation (env : ClassEnv) (m imp fresh : VoidPtr) :
    Checked (VoidPtr × ClassEnv) :=
  match env.methodHandleDecode m with
  | none => return (0, env)
  | some (cls, sel) => (env.install cls sel imp).optImpToGuestPtr cls sel (env.impAt cls sel) fresh

def classReplaceMethod (env : ClassEnv) (cls : Class) (name : SEL) (imp types fresh : VoidPtr) :
    Checked (VoidPtr × ClassEnv) :=
  if cls = nil ∨ name = 0 then return (0, env)
  else
    let old := env.impAt cls name
    let env := match env.guestPtrToImp imp with
      | some newImp =>
        let env := env.setImpAt cls name newImp
        if types ≠ 0 then env.setSignatureAt cls name (some types) else env
      | none => env
    env.optImpToGuestPtr cls name old fresh

def classAddMethod (env : ClassEnv) (cls : Class) (name : SEL) (imp types : VoidPtr) :
    Bool × ClassEnv :=
  if cls = nil ∨ name = 0 then (false, env)
  else if imp = 0 then (false, env)
  else if (env.impAt cls name).isSome then (false, env)
  else
    let env := env.setImpAt cls name (.guest imp)
    (true, if types ≠ 0 then env.setSignatureAt cls name (some types) else env)

def setOptImpAt (env : ClassEnv) (cls : Class) (sel : SEL) (imp : Option IMP) : ClassEnv :=
  match imp with
  | some imp => env.setImpAt cls sel imp
  | none => env

def methodExchangeImplementations (env : ClassEnv) (m1 m2 : VoidPtr) : ClassEnv :=
  match env.methodHandleDecode m1, env.methodHandleDecode m2 with
  | some (cls1, sel1), some (cls2, sel2) =>
    let imp1 := env.impAt cls1 sel1
    let imp2 := env.impAt cls2 sel2
    let types1 := env.signatureAt cls1 sel1
    let types2 := env.signatureAt cls2 sel2
    let env := env.setOptImpAt cls1 sel1 imp2
    let env := env.setOptImpAt cls2 sel2 imp1
    let env := env.setSignatureAt cls1 sel1 types2
    env.setSignatureAt cls2 sel2 types1
  | _, _ => env

def classSetSuperclass (env : ClassEnv) (cls newSuper : Class) : ClassEnv :=
  if cls = nil then env else env.modify cls fun c => { c with superclass := newSuper }

def classRespondsToSelector (env : ClassEnv) (cls : Class) (sel : SEL) (fuel : ℕ) : Option Bool :=
  if cls = nil ∨ sel = 0 then some false
  else (env.findDefiningClass sel fuel cls).map fun defining => decide (defining ≠ nil)

def classGetClassMethod (env : ClassEnv) (cls : Class) (name : SEL) (fuel : ℕ) : Option VoidPtr :=
  if cls = nil then some 0
  else env.findDefiningClass name fuel (env.isa cls)

end ClassEnv

inductive MethodRequest
  | getInstanceMethod (fuel : ℕ) (cls : Class) (name : SEL) (fresh : VoidPtr)
  | getImplementation (m fresh : VoidPtr)
  | getMethodImplementation (fuel : ℕ) (cls : Class) (name : SEL) (fresh : VoidPtr)
  | setImplementation (m imp fresh : VoidPtr)
  | replaceMethod (cls : Class) (name : SEL) (imp types fresh : VoidPtr)
  | addMethod (cls : Class) (name : SEL) (imp types : VoidPtr)
  | exchangeImplementations (m1 m2 : VoidPtr)
  | setSuperclass (cls newSuper : Class)

def ClassEnv.serve (env : ClassEnv) : MethodRequest → Checked (VoidPtr × ClassEnv)
  | .getInstanceMethod fuel cls name fresh => env.classGetInstanceMethod fuel cls name fresh
  | .getImplementation m fresh => env.methodGetImplementation m fresh
  | .getMethodImplementation fuel cls name fresh =>
    env.classGetMethodImplementation fuel cls name fresh
  | .setImplementation m imp fresh => env.methodSetImplementation m imp fresh
  | .replaceMethod cls name imp types fresh => env.classReplaceMethod cls name imp types fresh
  | .addMethod cls name imp types =>
    let (added, env) := env.classAddMethod cls name imp types
    return (if added then 1 else 0, env)
  | .exchangeImplementations m1 m2 => return (0, env.methodExchangeImplementations m1 m2)
  | .setSuperclass cls newSuper => return (env.getSuperclass cls, env.classSetSuperclass cls newSuper)

end TouchHle.Objc
