import TouchHle.Filesystem.Node

namespace TouchHle.Filesystem

open Lib

structure Fs where
  root : FsNode
  workingDirectory : AbsolutePath
  cowDir : Option HostPath

structure Storage where
  fs : Fs
  host : Host

abbrev Outcome (α : Type) := Except Unit α

inductive FsError
  | accessDenied
  | alreadyExist
  | directoryNotEmpty
  | doesNotExist
  | invalidParentDir
  | nonexistentParentDir
  | readonlyParentDir
  deriving DecidableEq

inductive GuestFile
  | directory
  | file (loc : List Text)
  | ipaBundleFile (file : IpaFileRef)
  | resourceFile (name : Text)
  deriving DecidableEq

structure GuestOpenOptions where
  read : Bool
  write : Bool
  append : Bool
  create : Bool
  createNew : Bool
  truncate : Bool
  deriving DecidableEq

/-- What is left to the platform: how letters are lowered, in which order the names of a directory
come out of its hash map, and what the resource files contain. -/
structure Platform where
  toLowercase : Text → Text
  iteration : Text → List Text → List Text
  resource : Text → Content
  iteration_perm : ∀ path names, (iteration path names).Perm names

def handleOpenErr {α : Type} : Except IoError α → Checked α
  | .ok a => .ok a
  | .error _ => .error .unwrap

namespace Fs

def resolve (fs : Fs) (path : Text) : List Text :=
  resolvePath path fs.workingDirectory

def lookupNode (fs : Fs) (path : Text) : Option FsNode :=
  fs.root.subtree (fs.resolve path)

def lookupParentNode (fs : Fs) (path : Text) : Option (List Text × FsNode × Text) :=
  (splitLast (fs.resolve path)).bind fun e =>
    (fs.root.subtree e.1).map fun parent => (e.1, parent, e.2)

def enumerate (fs : Fs) (platform : Platform) (path : Text) : Option (List Text) :=
  match fs.lookupNode path with
  | some (.node _ children) => some (platform.iteration path (children.map Prod.fst))
  | _ => none

def pushComponent (resolved : AbsolutePath) (component : Text) : AbsolutePath where
  text := (if resolved.text = ['/'] then resolved.text else resolved.text ++ ['/']) ++ component
  absolute := by
    have h := resolved.absolute
    split
    · rw [List.head?_append, h, Option.some_or]
    · rw [List.head?_append, List.head?_append, h, Option.some_or, Option.some_or]

def resolveComponents (fs : Fs) (platform : Platform) :
    AbsolutePath → List Text → Option AbsolutePath
  | resolved, [] => some resolved
  | resolved, component :: components =>
    (fs.enumerate platform resolved.text).bind fun entries =>
      (entries.find? fun entry =>
          platform.toLowercase entry = platform.toLowercase component).bind fun entry =>
        fs.resolveComponents platform (pushComponent resolved entry) components

def resolveCaseInsensitivePath (fs : Fs) (platform : Platform) (path : Text) :
    Option AbsolutePath :=
  fs.resolveComponents platform ⟨['/'], rfl⟩ (fs.resolve path)

def isDir (fs : Fs) (path : Text) : Bool :=
  match fs.lookupNode path with
  | some (.node _ _) => true
  | _ => false

def changeWorkingDirectory (fs : Fs) (platform : Platform) (newPath : Text) : Outcome Unit × Fs :=
  match fs.resolveCaseInsensitivePath platform newPath with
  | none => (.error (), fs)
  | some resolved =>
    if fs.isDir resolved.text then (.ok (), { fs with workingDirectory := resolved })
    else (.error (), fs)

end Fs

namespace Storage

def openPath (s : Storage) (platform : Platform) (path : Text) : Checked (Outcome GuestFile) :=
  match s.fs.resolveCaseInsensitivePath platform path with
  | none => .ok (.error ())
  | some resolved =>
    match s.fs.lookupNode resolved.text with
    | some (.leaf ⟨.path hostPath, _⟩) => do
      let (loc, _) ← handleOpenErr (s.host.openFile ⟨true, false, false, false, false⟩ hostPath)
      return .ok (.file loc)
    | some (.leaf ⟨.ipaFileRef file, _⟩) => .ok (.ok (.ipaBundleFile file))
    | some (.leaf ⟨.resourceFilePath name, _⟩) => .ok (.ok (.resourceFile name))
    | _ => .ok (.error ())

def contents (s : Storage) (platform : Platform) : GuestFile → Outcome Content
  | .directory => .error ()
  | .file loc =>
    match s.host.readToEnd loc with
    | .ok content => .ok content
    | .error _ => .error ()
  | .ipaBundleFile file => .ok file.decompressed
  | .resourceFile name => .ok (platform.resource name)

def read (s : Storage) (platform : Platform) (path : Text) : Checked (Outcome Content) := do
  match ← s.openPath platform path with
  | .error _ => return .error ()
  | .ok file => return s.contents platform file

def writeablePath : FsNode → Option HostPath
  | .leaf ⟨.path hostPath, true⟩ => some hostPath
  | .node writeable _ => writeable
  | _ => none

def moveNode (fs : Fs) (source target : Text) (toHostPath : HostPath) : Checked Fs :=
  match fs.lookupParentNode source with
  | some (fromDir, .node _ children, fromName) => do
    let movingNode ← unwrap (Tree.child? children fromName)
    let taken := { fs with root := fs.root.eraseAt fromDir fromName }
    match taken.lookupParentNode target with
    | some (toDir, .node _ _, toName) =>
      return { taken with
        root := taken.root.insertAt toDir toName (updateHostPathsRecursively movingNode toHostPath) }
    | _ => .error .unwrap
  | _ => .error .unwrap

def rename (s : Storage) (source target : Text) : Checked (Outcome Unit × Storage) :=
  if source = target then .ok (.ok (), s)
  else
    match (s.fs.lookupNode source).bind writeablePath, s.fs.lookupParentNode target with
    | some fromHostPath, some (_, .node (some toParentHostPath) _, toName) =>
      match s.host.rename fromHostPath (toParentHostPath ++ [toName]) with
      | .error _ => .ok (.error (), s)
      | .ok host => do
        let fs ← moveNode s.fs source target (toParentHostPath ++ [toName])
        return (.ok (), ⟨fs, host⟩)
    | _, _ => .ok (.error (), s)

inductive OpenAction
  | openPath (hostPath : HostPath)
  | openIpa (file : IpaFileRef)
  | openResource (name : Text)
  | openDir
  | reject
  | cowIpa (hostPath : HostPath) (content : Content)

def cowHostPath (cowBase : HostPath) (path : Text) : HostPath :=
  cowBase ++ (path.dropWhile fun c => c = '/').splitOn '/'

def openAction (s : Storage) (path : Text) (write append : Bool) : FsNode → OpenAction
  | .leaf ⟨location, writeable⟩ =>
    if !writeable && (append || write) then
      match location, s.fs.cowDir with
      | .ipaFileRef file, some cowBase =>
        let hostPath := cowHostPath cowBase path
        .cowIpa hostPath (if s.host.stat hostPath = none then file.decompressed else [])
      | _, _ => .reject
    else
      match location with
      | .path hostPath => .openPath hostPath
      | .ipaFileRef file => .openIpa file
      | .resourceFilePath name => .openResource name
  | .node _ _ => if write then .reject else .openDir

def writeCow (host : Host) (hostPath : HostPath) (content : Content) : Host × Bool :=
  if content = [] then (host, true)
  else
    match host.createDirAll (Host.parent hostPath) with
    | (host, false) => (host, false)
    | (host, true) =>
      match host.write hostPath content with
      | .error _ => (host, false)
      | .ok host => (host, true)

def replaceNode (fs : Fs) (path : Text) (node : FsNode) : Fs :=
  match fs.lookupParentNode path with
  | some (dir, .node _ _, name) => { fs with root := fs.root.insertAt dir name node }
  | _ => fs

def GuestOpenOptions.writes (o : GuestOpenOptions) : Bool :=
  o.write || ((o.truncate || o.create || o.createNew) && !o.append)

def GuestOpenOptions.existing (o : GuestOpenOptions) : HostOpenOptions :=
  ⟨o.read, GuestOpenOptions.writes o, o.append, false, o.truncate⟩

def createFile (s : Storage) (path : Text) (o : GuestOpenOptions) :
    Checked (Outcome GuestFile × Storage) :=
  if !o.create && !o.createNew then .ok (.error (), s)
  else
    match s.fs.lookupParentNode path with
    | some (dir, .node (some dirHostPath) _, name) => do
      assert ('/' ∉ name)
      let (loc, host) ← handleOpenErr (s.host.openFile
        ⟨o.read, GuestOpenOptions.writes o, o.append, true, o.truncate⟩ (dirHostPath ++ [name]))
      return (.ok (.file loc), ⟨{ s.fs with
        root := s.fs.root.insertAt dir name (FsNode.file (.path (dirHostPath ++ [name])) true) },
        host⟩)
    | _ => .ok (.error (), s)

def performOpen (s : Storage) (path : Text) (o : GuestOpenOptions) :
    OpenAction → Checked (Outcome GuestFile × Storage)
  | .openPath hostPath => do
    let (loc, host) ← handleOpenErr (s.host.openFile (GuestOpenOptions.existing o) hostPath)
    return (.ok (.file loc), ⟨s.fs, host⟩)
  | .openIpa file => .ok (.ok (.ipaBundleFile file), s)
  | .openResource name => .ok (.ok (.resourceFile name), s)
  | .openDir => .ok (.ok .directory, s)
  | .reject => createFile s path o
  | .cowIpa hostPath content =>
    match writeCow s.host hostPath content with
    | (host, false) => .ok (.error (), ⟨s.fs, host⟩)
    | (host, true) => do
      let (loc, host) ← handleOpenErr (host.openFile (GuestOpenOptions.existing o) hostPath)
      return (.ok (.file loc), ⟨replaceNode s.fs path (FsNode.file (.path hostPath) true), host⟩)

def openWithOptions (s : Storage) (path : Text) (o : GuestOpenOptions) :
    Checked (Outcome GuestFile × Storage) :=
  match s.fs.lookupParentNode path with
  | some (_, .node _ children, name) =>
    match Tree.child? children name with
    | none => performOpen s path o .reject
    | some node =>
      if o.createNew then .ok (.error (), s)
      else performOpen s path o (openAction s path (GuestOpenOptions.writes o) o.append node)
  | _ => .ok (.error (), s)

def write (s : Storage) (path : Text) (data : Content) : Checked (Outcome Unit × Storage) := do
  match ← s.openWithOptions path ⟨false, true, false, true, false, true⟩ with
  | (.ok (.file loc), s) =>
    match s.host.writeAll loc data with
    | .ok host => return (.ok (), ⟨s.fs, host⟩)
    | .error _ => return (.error (), s)
  | (_, s) => return (.error (), s)

def remove (s : Storage) (path : Text) : Checked (Except FsError Unit × Storage) :=
  match s.fs.lookupParentNode path with
  | none => .ok (.error .nonexistentParentDir, s)
  | some (_, .leaf _, _) => .ok (.error .invalidParentDir, s)
  | some (_, .node none _, _) => .ok (.error .readonlyParentDir, s)
  | some (dir, .node (some _) children, name) =>
    match Tree.child? children name with
    | none => .ok (.error .doesNotExist, s)
    | some (.leaf ⟨_, false⟩) => .ok (.error .accessDenied, s)
    | some (.leaf ⟨.path hostPath, true⟩) => do
      let host ← handleOpenErr (s.host.removeFile hostPath)
      return (.ok (), ⟨{ s.fs with root := s.fs.root.eraseAt dir name }, host⟩)
    | some (.leaf ⟨_, true⟩) => .error .assertion
    | some (.node _ (_ :: _)) => .ok (.error .directoryNotEmpty, s)
    | some (.node none []) => .ok (.error .accessDenied, s)
    | some (.node (some hostPath) []) => do
      let host ← handleOpenErr (s.host.removeDir hostPath)
      return (.ok (), ⟨{ s.fs with root := s.fs.root.eraseAt dir name }, host⟩)

def createHostDir (host : Host) (path : HostPath) : Checked Host :=
  match host.createDir path with
  | .ok host => .ok host
  | .error .alreadyExists => .ok host
  | .error .other => .error .unwrap

def createDir (s : Storage) (path : Text) : Checked (Except FsError Unit × Storage) :=
  match s.fs.lookupParentNode path with
  | none => .ok (.error .nonexistentParentDir, s)
  | some (_, .leaf _, _) => .ok (.error .invalidParentDir, s)
  | some (dir, .node writeable children, name) =>
    if (Tree.child? children name).isSome then .ok (.error .alreadyExist, s)
    else
      match writeable with
      | none => .ok (.error .readonlyParentDir, s)
      | some dirHostPath => do
        assert ('/' ∉ name)
        let host ← createHostDir s.host (dirHostPath ++ [name])
        return (.ok (), ⟨{ s.fs with
          root := s.fs.root.insertAt dir name (.node (some (dirHostPath ++ [name])) []) }, host⟩)

def createDirs (s : Storage) (current : Text) :
    List Text → Checked (Except FsError Unit × Storage)
  | [] => .ok (.ok (), s)
  | component :: components => do
    let path := current ++ '/' :: component
    match ← s.createDir path with
    | (.ok _, s) => createDirs s path components
    | (.error .alreadyExist, s) => createDirs s path components
    | r => return r

def createDirAll (s : Storage) (path : Text) : Checked (Except FsError Unit × Storage) :=
  s.createDirs [] (s.fs.resolve path)

end Storage

end TouchHle.Filesystem
