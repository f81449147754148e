import TouchHle.Lib.Text
import TouchHle.Lib.Tree
import TouchHle.Lib.Checked

namespace TouchHle.Filesystem

open Lib List

def applyPathComponent (components : List Text) (component : Text) : List Text :=
  if component = [] then components
  else if component = ".".toList then components
  else if component = "..".toList then components.dropLast
  else components ++ [component]

def marker : List Text := ["var".toList, "mobile".toList, "Applications".toList]

def markerPosition : List Text → Option ℕ
  | [] => none
  | c :: cs => if marker <+: c :: cs then some 0 else (markerPosition cs).map (· + 1)

def stripDuplicatePrefix (components : List Text) : List Text :=
  if 6 < components.length then
    match markerPosition components with
    | none => components
    | some dupStart =>
      match markerPosition (components.drop (dupStart + 1)) with
      | none => components
      | some secondPos => components.drop (dupStart + 1 + secondPos)
  else components

structure AbsolutePath where
  text : Text
  absolute : text.head? = some '/'

def resolvePath (path : Text) (relativeTo : AbsolutePath) : List Text :=
  stripDuplicatePrefix ((path.splitOn '/').foldl applyPathComponent
    (if path.head? = some '/' then []
      else (relativeTo.text.splitOn '/').foldl applyPathComponent []))

def splitLast (components : List Text) : Option (List Text × Text) :=
  components.getLast?.map fun name => (components.dropLast, name)

structure Proper (c : Text) : Prop where
  nonempty : c ≠ []
  not_dot : c ≠ ".".toList
  not_dots : c ≠ "..".toList
  not_separator : '/' ∉ c

def absolutePath (components : List Text) : Text :=
  if components = [] then ['/'] else components.flatMap fun c => '/' :: c

section

variable {c : Text} {components l : List Text}

lemma applyPathComponent_proper (h : Proper c) :
    applyPathComponent components c = components ++ [c] := by
  rw [applyPathComponent, if_neg h.nonempty, if_neg h.not_dot, if_neg h.not_dots]

lemma foldl_applyPathComponent (h : ∀ c ∈ l, Proper c) :
    l.foldl applyPathComponent components = components ++ l := by
  induction l generalizing components with
  | nil => simp
  | cons c l ih =>
    rw [foldl_cons, applyPathComponent_proper (h c mem_cons_self),
      ih fun d hd => h d (mem_cons_of_mem _ hd), append_assoc, singleton_append]

lemma proper_foldl (h : ∀ c ∈ components, Proper c) (hl : ∀ c ∈ l, '/' ∉ c) :
    ∀ c ∈ l.foldl applyPathComponent components, Proper c := by
  induction l generalizing components with
  | nil => exact h
  | cons d l ih =>
    apply ih
    · intro c hc
      rw [applyPathComponent] at hc
      split_ifs at hc with h1 h2 h3
      · exact h c hc
      · exact h c hc
      · exact h c (mem_of_mem_dropLast hc)
      · rcases mem_append.mp hc with hc | hc
        · exact h c hc
        · obtain rfl := mem_singleton.mp hc
          exact ⟨h1, h2, h3, hl c mem_cons_self⟩
    · exact fun c hc => hl c (mem_cons_of_mem _ hc)

lemma stripDuplicatePrefix_suffix (components : List Text) :
    stripDuplicatePrefix components <:+ components := by
  rw [stripDuplicatePrefix]
  split
  · split
    · exact suffix_refl _
    · split
      · exact suffix_refl _
      · exact drop_suffix _ _
  · exact suffix_refl _

lemma resolvePath_proper {path : Text} {cwd : AbsolutePath} :
    ∀ c ∈ resolvePath path cwd, Proper c := by
  intro c hc
  have hsplit : ∀ s : Text, ∀ c ∈ s.splitOn '/', '/' ∉ c := fun _ _ => Text.not_mem_of_mem_splitOn
  apply proper_foldl _ (hsplit path) c ((stripDuplicatePrefix_suffix _).subset hc)
  split
  · simp
  · exact proper_foldl (by simp) (hsplit cwd.text)

lemma splitOn_flatMap (h : ∀ c ∈ l, Proper c) :
    (l.flatMap fun c => '/' :: c).splitOn '/' = [] :: l := by
  cases l with
  | nil => rfl
  | cons c l =>
    rw [flatMap_cons, cons_append]
    change (([] : Text) ++ '/' :: (c ++ l.flatMap fun c => '/' :: c)).splitOn '/' = _
    rw [splitOn_append_cons_self_of_not_mem (by simp)]
    congr 1
    induction l generalizing c with
    | nil =>
      rw [flatMap_nil, append_nil]
      exact splitOn_eq_singleton (h c mem_cons_self).not_separator
    | cons d l ih =>
      rw [flatMap_cons, cons_append,
        splitOn_append_cons_self_of_not_mem (h c mem_cons_self).not_separator,
        ih d fun e he => h e (mem_cons_of_mem _ he)]

lemma resolvePath_absolutePath (h : ∀ c ∈ components, Proper c) (cwd : AbsolutePath) :
    resolvePath (absolutePath components) cwd = stripDuplicatePrefix components := by
  have hhead : (absolutePath components).head? = some '/' := by
    cases components <;> simp [absolutePath]
  have hsplit : ((absolutePath components).splitOn '/').foldl applyPathComponent [] =
      components := by
    cases components with
    | nil => decide
    | cons c l =>
      have hap : absolutePath (c :: l) = (c :: l).flatMap fun c => '/' :: c := if_neg (by simp)
      rw [hap, splitOn_flatMap h, foldl_cons]
      exact foldl_applyPathComponent h
  rw [resolvePath, if_pos hhead, hsplit]

lemma splitLast_eq_some {parents : List Text} :
    splitLast components = some (parents, c) ↔ components = parents ++ [c] := by
  constructor
  · intro h
    obtain ⟨d, hd, heq⟩ := Option.map_eq_some_iff.mp h
    obtain ⟨rfl, rfl⟩ := Prod.mk.inj heq
    obtain ⟨l, rfl⟩ := getLast?_eq_some_iff.mp hd
    rw [dropLast_concat]
  · rintro rfl
    simp [splitLast]

end

end TouchHle.Filesystem

/-! The host's file system: paths to files and directories, without links or permissions. A path is
the list of the components it was joined from, which may be empty, `.` or `..`. -/

namespace TouchHle.Filesystem

open Lib List

abbrev HostPath := List Text
abbrev Content := List UInt8
abbrev Host := Tree Text Content Unit

inductive IoError
  | alreadyExists
  | other
  deriving DecidableEq

structure HostOpenOptions where
  read : Bool
  write : Bool
  append : Bool
  create : Bool
  truncate : Bool

def HostOpenOptions.valid (o : HostOpenOptions) : Bool :=
  (o.read || o.write || o.append) &&
    if o.append then !o.truncate else o.write || (!o.truncate && !o.create)

namespace Host

def isDir (host : Host) (loc : List Text) : Bool :=
  host.label? loc = some (.inr ())

def locate (host : Host) : List Text → HostPath → Option (List Text)
  | loc, [] => some loc
  | loc, c :: cs =>
    if host.isDir loc then
      if c = [] ∨ c = ".".toList then locate host loc cs
      else if c = "..".toList then locate host loc.dropLast cs
      else locate host (loc ++ [c]) cs
    else none

def stat (host : Host) (path : HostPath) : Option (Content ⊕ Unit) :=
  (host.locate [] path).bind fun loc => host.label? loc

def parent (path : HostPath) : HostPath :=
  (path.filter fun c => c ≠ [] ∧ c ≠ ".".toList).dropLast

def openFile (host : Host) (o : HostOpenOptions) (path : HostPath) :
    Except IoError (List Text × Host) :=
  if o.valid = false then .error .other
  else
    match host.locate [] path with
    | none => .error .other
    | some loc =>
      match host.label? loc with
      | some (.inl _) => .ok (loc, if o.truncate then host.put loc (.leaf []) else host)
      | some (.inr _) => if o.write || o.append || o.create then .error .other else .ok (loc, host)
      | none => if o.create then .ok (loc, host.put loc (.leaf [])) else .error .other

def writeAll (host : Host) (loc : List Text) (data : Content) : Except IoError Host :=
  match host.label? loc with
  | some (.inl old) => .ok (host.put loc (.leaf (data ++ old.drop data.length)))
  | _ => .error .other

def readToEnd (host : Host) (loc : List Text) : Except IoError Content :=
  match host.label? loc with
  | some (.inl content) => .ok content
  | _ => .error .other

def write (host : Host) (path : HostPath) (data : Content) : Except IoError Host := do
  let (loc, host) ← host.openFile ⟨false, true, false, true, true⟩ path
  host.writeAll loc data

def createDir (host : Host) (path : HostPath) : Except IoError Host :=
  match host.locate [] path with
  | none => .error .other
  | some loc =>
    match host.label? loc with
    | some _ => .error .alreadyExists
    | none => .ok (host.put loc (.node () []))

def makeDirs (host : Host) : List HostPath → Host × Bool
  | [] => (host, true)
  | path :: paths =>
    if host.stat path = some (.inr ()) then makeDirs host paths
    else
      match host.createDir path with
      | .ok host => makeDirs host paths
      | .error _ => (host, false)

def createDirAll (host : Host) (path : HostPath) : Host × Bool :=
  makeDirs host path.inits

def removeFile (host : Host) (path : HostPath) : Except IoError Host :=
  match host.locate [] path with
  | none => .error .other
  | some loc =>
    match host.label? loc with
    | some (.inl _) => .ok (host.remove loc)
    | _ => .error .other

def removeDir (host : Host) (path : HostPath) : Except IoError Host :=
  match host.locate [] path with
  | none => .error .other
  | some loc =>
    match loc, host.subtree loc with
    | _ :: _, some (.node _ []) => .ok (host.remove loc)
    | _, _ => .error .other

def removeDirAll (host : Host) (path : HostPath) : Except IoError Host :=
  match host.locate [] path with
  | none => .error .other
  | some loc =>
    match loc, host.subtree loc with
    | _ :: _, some (.node _ _) => .ok (host.remove loc)
    | _, _ => .error .other

def replaceable : Host → Option Host → Bool
  | _, none => true
  | .leaf _, some (.leaf _) => true
  | .node _ _, some (.node _ cs) => cs.isEmpty
  | _, _ => false

def rename (host : Host) (source target : HostPath) : Except IoError Host :=
  match host.locate [] source, host.locate [] target with
  | some fromLoc, some toLoc =>
    match fromLoc, host.subtree fromLoc with
    | _ :: _, some moved =>
      if fromLoc = toLoc then .ok host
      else if fromLoc <+: toLoc then .error .other
      else if replaceable moved (host.subtree toLoc) = false then .error .other
      else .ok ((host.remove fromLoc).put toLoc moved)
    | _, _ => .error .other
  | _, _ => .error .other

end Host

open Lib.Text

structure IpaFileRef where
  index : ℕ
  decompressed : Content
  deriving DecidableEq

inductive FileLocation
  | path (p : HostPath)
  | ipaFileRef (file : IpaFileRef)
  | resourceFilePath (name : Text)
  deriving DecidableEq

structure FsFile where
  location : FileLocation
  writeable : Bool
  deriving DecidableEq

abbrev FsNode := Tree Text FsFile (Option HostPath)

abbrev FsLabel := FsFile ⊕ Option HostPath

def FsNode.file (location : FileLocation) (writeable : Bool) : FsNode :=
  .leaf ⟨location, writeable⟩

def FsNode.dir : FsNode := .node none []

mutual

def fromHostNode (writeable : Bool) : Host → HostPath → FsNode
  | .leaf _, hostPath => FsNode.file (.path hostPath) writeable
  | .node _ entries, hostPath =>
    .node (if writeable then some hostPath else none) (fromHostEntries writeable entries hostPath)

def fromHostEntries (writeable : Bool) : List (Text × Host) → HostPath → List (Text × FsNode)
  | [], _ => []
  | (name, entry) :: entries, hostPath =>
    (name, fromHostNode writeable entry (hostPath ++ [name])) ::
      fromHostEntries writeable entries hostPath

end

def fromHostDir (host : Host) (hostPath : HostPath) (writeable : Bool) : Checked FsNode := do
  let loc ← unwrap (host.locate [] hostPath)
  match host.subtree loc with
  | some (.node u entries) => .ok (fromHostNode writeable (.node u entries) hostPath)
  | _ => .error .unwrap

def withChild (node : FsNode) (name : Text) (child : FsNode) : Checked FsNode :=
  match node with
  | .leaf _ => .error .assertion
  | .node writeable children => do
    assert (Tree.child? children name).isNone
    return .node writeable (Tree.insertChild name child children)

mutual

def updateHostPathsRecursively : FsNode → HostPath → FsNode
  | .leaf ⟨.path _, writeable⟩, newHostPath => .leaf ⟨.path newHostPath, writeable⟩
  | .leaf file, _ => .leaf file
  | .node (some _) children, newHostPath =>
    .node (some newHostPath) (updateChildren children newHostPath)
  | .node none children, _ => .node none children

def updateChildren : List (Text × FsNode) → HostPath → List (Text × FsNode)
  | [], _ => []
  | (name, child) :: children, newHostPath =>
    (name, updateHostPathsRecursively child (newHostPath ++ [name])) ::
      updateChildren children newHostPath

end

def makeDirectories (f : FsNode → Checked FsNode) : List Text → FsNode → Checked FsNode
  | [], node => f node
  | _ :: _, .leaf _ => .error .assertion
  | part :: parts, .node writeable children => do
    assert (part ≠ "..".toList)
    let next ← makeDirectories f parts ((Tree.child? children part).getD FsNode.dir)
    return .node writeable (Tree.insertChild part next children)

def pathParts (path : Text) : List Text :=
  (path.splitOn '/').filter fun part => part ≠ []

def addDirectory (root : FsNode) (path : Text) : Checked FsNode :=
  makeDirectories .ok (pathParts path) root

def parentAndFileName (path : Text) : Option (Text × Text) :=
  match rsplitOnce '/' (trimEndMatches '/' path) with
  | none => none
  | some (parentName, name) => if name = [] then none else some (parentName, name)

def insertFile (name : Text) (file : FsNode) : FsNode → Checked FsNode
  | .leaf _ => .error .assertion
  | .node writeable children => .ok (.node writeable (Tree.insertChild name file children))

def addFile (root : FsNode) (path : Text) (file : FsNode) : Checked FsNode := do
  let (parentName, name) ← unwrap (parentAndFileName path)
  assert (name ≠ "..".toList)
  makeDirectories (insertFile name file) (pathParts parentName) root

structure ZipEntry where
  name : Text
  isDir : Bool
  decompressed : Content

inductive BundleData
  | hostDirectory (path : HostPath)
  | zip (entries : List (Option ZipEntry)) (bundlePath : Text)

def addEntry (bundlePath : Text) (root : FsNode) : Option ZipEntry × ℕ → Checked FsNode
  | (none, _) => .ok root
  | (some entry, index) =>
    match bundlePath.isPrefixOf? entry.name with
    | none => .ok root
    | some path =>
      if entry.isDir then addDirectory root path
      else addFile root path (FsNode.file (.ipaFileRef ⟨index, entry.decompressed⟩) false)

def BundleData.intoFsNode (host : Host) : BundleData → Checked FsNode
  | .hostDirectory path => fromHostDir host path false
  | .zip entries bundlePath => entries.zipIdx.foldlM (addEntry bundlePath) FsNode.dir

def FsNode.ReadOnly : FsLabel → Prop
  | .inl file => file.writeable = false
  | .inr writeable => writeable = none

instance (l : FsLabel) : Decidable (FsNode.ReadOnly l) :=
  match l with
  | .inl file => inferInstanceAs (Decidable (file.writeable = false))
  | .inr none => isTrue rfl
  | .inr (some _) => isFalse (by rintro ⟨⟩)

end TouchHle.Filesystem
