import Mathlib.Data.List.Count
import Mathlib.Tactic
import TouchHle.Lib.Runs

namespace TouchHle.Filesystem.Descriptors

open Lib Function List Option

inductive Errno
  | ebadf
  | eisdir
  | eagain
  | epipe
  | espipe
  | einval
  | eoverflow
  | emfile
  deriving DecidableEq

structure Answer where
  value : ℤ
  errno : Option Errno
  data : List ℕ
  deriving DecidableEq

def failed (errno : Option Errno) : Answer := ⟨-1, errno, []⟩
def done (value : ℤ) : Answer := ⟨value, none, []⟩
def got (data : List ℕ) : Answer :=
  ⟨if data.length < 2 ^ 31 then data.length else -1, none, data⟩

inductive Whole
  | host
  | bundle
  | resource
  deriving DecidableEq

inductive Op
  | openFile (kind : Whole) (content : List ℕ)
  | openDirectory
  | pipe
  | dupFd (fd minFd : ℤ)
  | read (fd : ℤ) (size : ℕ)
  | write (fd : ℤ) (bytes : List ℕ)
  | lseek (fd offset whence : ℤ)
  | close (fd : ℤ)

section

variable {α β : Type}

def fileIdxToFd (i : ℕ) : ℤ := i + 3

def fdToFileIdx (fd : ℤ) : ℕ := (fd - 3).toNat

def fileForFd (files : List (Option α)) (fd : ℤ) : Option α :=
  if fd < 3 then none else files[fdToFileIdx fd]?.join

def placeFrom (minIdx : ℕ) (files : List (Option α)) (x : α) : ℕ × List (Option α) :=
  match (files.drop minIdx).findIdx? Option.isNone with
  | some i => (minIdx + i, files.set (minIdx + i) (some x))
  | none =>
    if files.length < minIdx then
      (minIdx, files ++ List.replicate (minIdx - files.length) none ++ [some x])
    else (files.length, files ++ [some x])

def findOrCreateFd (files : List (Option α)) (x : α) : ℕ × List (Option α) := placeFrom 0 files x

def minIdxOf (minFd : ℤ) : ℕ := if 3 ≤ minFd then fdToFileIdx minFd else 0

end

def seekTarget (position length : ℕ) (offset whence : ℤ) : Except Errno ℕ :=
  let start : Option ℕ :=
    if whence = 0 then some 0 else if whence = 1 then some position
    else if whence = 2 then some length else none
  match start with
  | none => .error .einval
  | some start =>
    if start + offset < 0 then .error .einval
    else if 2 ^ 63 ≤ start + offset then .error .eoverflow
    else .ok (start + offset).toNat

def seekDirectory (offset whence : ℤ) : Errno :=
  if whence = 1 ∨ whence = 2 then .eisdir
  else
    match seekTarget 0 0 offset whence with
    | .error e => e
    | .ok _ => .eisdir

structure PipeBuffer where
  bytes : List ℕ
  readHandles : ℕ
  writeHandles : ℕ

/-- A host file is a file description of the host, with its offset; a file of the bundle is shared
data, with a position of its own. -/
inductive GuestFile
  | file (description : ℕ)
  | ipaBundleFile (data position : ℕ)
  | resourceFile (description : ℕ)
  | directory
  | pipeRead (pipe : ℕ)
  | pipeWrite (pipe : ℕ)

structure State where
  files : List (Option GuestFile)
  content : ℕ → List ℕ
  offset : ℕ → ℕ
  pipes : ℕ → PipeBuffer
  next : ℕ

namespace State

def setPipe (s : State) (p : ℕ) (pipe : PipeBuffer) : State :=
  { s with pipes := update s.pipes p pipe }

def cursor (s : State) : GuestFile → Option (ℕ × ℕ)
  | .file d | .resourceFile d => some (d, s.offset d)
  | .ipaBundleFile d position => some (d, position)
  | _ => none

def setPosition (s : State) (i q : ℕ) : GuestFile → State
  | .file d | .resourceFile d => { s with offset := update s.offset d q }
  | .ipaBundleFile d _ => { s with files := s.files.set i (some (.ipaBundleFile d q)) }
  | _ => s

def opened (d : ℕ) : Whole → GuestFile
  | .host => .file d
  | .bundle => .ipaBundleFile d 0
  | .resource => .resourceFile d

def openFile (s : State) (kind : Whole) (content : List ℕ) : Answer × State :=
  let (i, files) := findOrCreateFd s.files (opened s.next kind)
  (done (fileIdxToFd i), { s with
    files := files
    content := update s.content s.next content
    offset := update s.offset s.next 0
    next := s.next + 1 })

def openDirectory (s : State) : Answer × State :=
  let (i, files) := findOrCreateFd s.files .directory
  (done (fileIdxToFd i), { s with files := files })

def pipe (s : State) : Answer × State :=
  let (readIdx, files) := findOrCreateFd s.files (.pipeRead s.next)
  let (writeIdx, files) := findOrCreateFd files (.pipeWrite s.next)
  (⟨0, none, [readIdx + 3, writeIdx + 3]⟩, { s with
    files := files
    pipes := update s.pipes s.next ⟨[], 1, 1⟩
    next := s.next + 1 })

def tryClone (s : State) : GuestFile → Option (GuestFile × State)
  | .file d => some (.file d, s)
  | .ipaBundleFile d position => some (.ipaBundleFile d position, s)
  | .resourceFile _ => none
  | .directory => some (.directory, s)
  | .pipeRead p =>
    some (.pipeRead p, s.setPipe p { s.pipes p with readHandles := (s.pipes p).readHandles + 1 })
  | .pipeWrite p =>
    some (.pipeWrite p, s.setPipe p { s.pipes p with writeHandles := (s.pipes p).writeHandles + 1 })

def closePipeEndpoint (s : State) : GuestFile → State
  | .pipeRead p => s.setPipe p { s.pipes p with readHandles := (s.pipes p).readHandles - 1 }
  | .pipeWrite p => s.setPipe p { s.pipes p with writeHandles := (s.pipes p).writeHandles - 1 }
  | _ => s

def dupFd (s : State) (fd minFd : ℤ) : Answer × State :=
  match fileForFd s.files fd with
  | none => (failed (some .ebadf), s)
  | some g =>
    match s.tryClone g with
    | none => (failed (some .emfile), s)
    | some (g', s') =>
      let (i, files) := placeFrom (minIdxOf minFd) s'.files g'
      (done (fileIdxToFd i), { s' with files := files })

def readPipe (s : State) (p size : ℕ) : Answer × State :=
  if size = 0 then (got [], s)
  else if (s.pipes p).bytes = [] then
    if (s.pipes p).writeHandles = 0 then (got [], s) else (failed (some .eagain), s)
  else (got ((s.pipes p).bytes.take size),
    s.setPipe p { s.pipes p with bytes := (s.pipes p).bytes.drop size })

def read (s : State) (fd : ℤ) (size : ℕ) : Answer × State :=
  match fileForFd s.files fd with
  | none => (failed (some .ebadf), s)
  | some g =>
    match s.cursor g with
    | some (d, position) =>
      let data := ((s.content d).drop position).take size
      (got data, s.setPosition (fdToFileIdx fd) (position + data.length) g)
    | none =>
      match g with
      | .pipeRead p => s.readPipe p size
      | .directory => (⟨0, some .eisdir, []⟩, s)
      | _ => (failed none, s)

def writePipe (s : State) (p : ℕ) (bytes : List ℕ) : Answer × State :=
  if (s.pipes p).readHandles = 0 then (failed (some .epipe), s)
  else (done (got bytes).value,
    s.setPipe p { s.pipes p with bytes := (s.pipes p).bytes ++ bytes })

def write (s : State) (fd : ℤ) (bytes : List ℕ) : Answer × State :=
  match fileForFd s.files fd with
  | none => (failed (some .ebadf), s)
  | some (.pipeWrite p) => s.writePipe p bytes
  | some (.pipeRead _) => (failed (some .epipe), s)
  | some _ => (failed none, s)

def lseek (s : State) (fd offset whence : ℤ) : Answer × State :=
  match fileForFd s.files fd with
  | none => (failed (some .ebadf), s)
  | some g =>
    match s.cursor g with
    | some (d, position) =>
      match seekTarget position (s.content d).length offset whence with
      | .error e => (failed (some e), s)
      | .ok q => (done q, s.setPosition (fdToFileIdx fd) q g)
    | none =>
      match g with
      | .directory => (failed (some (seekDirectory offset whence)), s)
      | _ => (failed (some .espipe), s)

def close (s : State) (fd : ℤ) : Answer × State :=
  if fd < 0 then (failed (some .ebadf), s)
  else if fd < 3 then (done 0, s)
  else
    match fileForFd s.files fd with
    | none => (failed (some .ebadf), s)
    | some g => (done 0,
        { s.closePipeEndpoint g with files := s.files.set (fdToFileIdx fd) none })

def exec (s : State) : Op → Answer × State
  | .openFile kind content => s.openFile kind content
  | .openDirectory => s.openDirectory
  | .pipe => s.pipe
  | .dupFd fd minFd => s.dupFd fd minFd
  | .read fd size => s.read fd size
  | .write fd bytes => s.write fd bytes
  | .lseek fd offset whence => s.lseek fd offset whence
  | .close fd => s.close fd

def initial : State := ⟨[], fun _ => [], fun _ => 0, fun _ => ⟨[], 0, 0⟩, 0⟩

end State

inductive Handle
  | description (d : ℕ) (kind : Whole)
  | directory
  | readEnd (pipe : ℕ)
  | writeEnd (pipe : ℕ)
  deriving DecidableEq

def Handle.duplicable : Handle → Bool
  | .description _ .resource => false
  | _ => true

structure Posix where
  slots : List (Option Handle)
  content : ℕ → List ℕ
  offset : ℕ → ℕ
  bytes : ℕ → List ℕ
  next : ℕ

namespace Posix

def descriptors (t : Posix) (h : Handle) : ℕ := t.slots.count (some h)

def openHandle (t : Posix) (h : Handle) : Answer × Posix :=
  let (i, slots) := findOrCreateFd t.slots h
  (done (fileIdxToFd i), { t with slots := slots })

def pipe (t : Posix) : Answer × Posix :=
  let (readIdx, slots) := findOrCreateFd t.slots (.readEnd t.next)
  let (writeIdx, slots) := findOrCreateFd slots (.writeEnd t.next)
  (⟨0, none, [readIdx + 3, writeIdx + 3]⟩, { t with
    slots := slots
    bytes := update t.bytes t.next []
    next := t.next + 1 })

def dupFd (t : Posix) (fd minFd : ℤ) : Answer × Posix :=
  match fileForFd t.slots fd with
  | none => (failed (some .ebadf), t)
  | some h =>
    if h.duplicable then
      let (i, slots) := placeFrom (minIdxOf minFd) t.slots h
      (done (fileIdxToFd i), { t with slots := slots })
    else (failed (some .emfile), t)

def read (t : Posix) (fd : ℤ) (size : ℕ) : Answer × Posix :=
  match fileForFd t.slots fd with
  | none => (failed (some .ebadf), t)
  | some (.description d _) =>
    let data := ((t.content d).drop (t.offset d)).take size
    (got data, { t with offset := update t.offset d (t.offset d + data.length) })
  | some .directory => (⟨0, some .eisdir, []⟩, t)
  | some (.readEnd p) =>
    if size = 0 then (got [], t)
    else if t.bytes p = [] then
      if t.descriptors (.writeEnd p) = 0 then (got [], t) else (failed (some .eagain), t)
    else (got ((t.bytes p).take size),
      { t with bytes := update t.bytes p ((t.bytes p).drop size) })
  | some (.writeEnd _) => (failed none, t)

def write (t : Posix) (fd : ℤ) (bytes : List ℕ) : Answer × Posix :=
  match fileForFd t.slots fd with
  | none => (failed (some .ebadf), t)
  | some (.writeEnd p) =>
    if t.descriptors (.readEnd p) = 0 then (failed (some .epipe), t)
    else (done (got bytes).value,
      { t with bytes := update t.bytes p (t.bytes p ++ bytes) })
  | some (.readEnd _) => (failed (some .epipe), t)
  | some _ => (failed none, t)

def lseek (t : Posix) (fd offset whence : ℤ) : Answer × Posix :=
  match fileForFd t.slots fd with
  | none => (failed (some .ebadf), t)
  | some (.description d _) =>
    match seekTarget (t.offset d) (t.content d).length offset whence with
    | .error e => (failed (some e), t)
    | .ok q => (done q, { t with offset := update t.offset d q })
  | some .directory => (failed (some (seekDirectory offset whence)), t)
  | some _ => (failed (some .espipe), t)

def close (t : Posix) (fd : ℤ) : Answer × Posix :=
  if fd < 0 then (failed (some .ebadf), t)
  else if fd < 3 then (done 0, t)
  else
    match fileForFd t.slots fd with
    | none => (failed (some .ebadf), t)
    | some _ => (done 0, { t with slots := t.slots.set (fdToFileIdx fd) none })

def exec (t : Posix) : Op → Answer × Posix
  | .openFile kind content =>
    { t with
      content := update t.content t.next content
      offset := update t.offset t.next 0
      next := t.next + 1 : Posix }.openHandle (.description t.next kind)
  | .openDirectory => t.openHandle .directory
  | .pipe => t.pipe
  | .dupFd fd minFd => t.dupFd fd minFd
  | .read fd size => t.read fd size
  | .write fd bytes => t.write fd bytes
  | .lseek fd offset whence => t.lseek fd offset whence
  | .close fd => t.close fd

def initial : Posix := ⟨[], fun _ => [], fun _ => 0, fun _ => [], 0⟩

end Posix

section

variable {α β : Type} {f : α → β} {files : List (Option α)} {x y : α} {fd : ℤ} {i m : ℕ}

lemma fileForFd_eq_some (h : fileForFd files fd = some x) :
    files[fdToFileIdx fd]? = some (some x) := by
  rw [fileForFd] at h
  split at h
  · cases h
  · exact join_eq_some_iff.mp h

lemma fileForFd_map (f : α → β) (files : List (Option α)) (fd : ℤ) :
    fileForFd (files.map (Option.map f)) fd = (fileForFd files fd).map f := by
  rw [fileForFd, fileForFd, getElem?_map]
  split
  · rfl
  · cases files[fdToFileIdx fd]? with
    | none => rfl
    | some slot => cases slot <;> rfl

lemma findIdx?_map (f : α → β) (files : List (Option α)) :
    (files.map (Option.map f)).findIdx? Option.isNone = files.findIdx? Option.isNone := by
  rw [List.findIdx?_map]
  refine congrArg (List.findIdx? · files) ?_
  funext slot
  cases slot <;> rfl

lemma placeFrom_map (f : α → β) (m : ℕ) (files : List (Option α)) (x : α) :
    placeFrom m (files.map (Option.map f)) (f x)
      = ((placeFrom m files x).1, (placeFrom m files x).2.map (Option.map f)) := by
  rw [placeFrom, placeFrom, ← map_drop, findIdx?_map, length_map]
  cases (files.drop m).findIdx? Option.isNone with
  | some i => simp only [map_set, map_some]
  | none =>
    by_cases hlt : files.length < m
    · simp only [if_pos hlt, map_append, map_replicate, map_cons, map_nil,
        map_some, map_none]
    · simp only [if_neg hlt, map_append, map_cons, map_nil, map_some]

lemma free_place (h : (files.drop m).findIdx? Option.isNone = some i) :
    files[m + i]? = some none := by
  obtain ⟨hi, hnone, -⟩ := findIdx?_eq_some_iff_getElem.mp h
  rw [← getElem?_drop, getElem?_eq_getElem hi]
  exact congrArg some (isNone_iff_eq_none.mp hnone)

lemma mem_placeFrom (h : some y ∈ (placeFrom m files x).2) : y = x ∨ some y ∈ files := by
  rw [placeFrom] at h
  split at h
  · rcases mem_or_eq_of_mem_set h with h | h
    · exact .inr h
    · exact .inl (some.inj h)
  · split at h
    · simp only [mem_append, mem_replicate, mem_singleton] at h
      rcases h with (h | ⟨-, h⟩) | h
      · exact .inr h
      · cases h
      · exact .inl (some.inj h)
    · rcases mem_append.mp h with h | h
      · exact .inr h
      · exact .inl (some.inj (mem_singleton.mp h))

lemma count_placeFrom [DecidableEq α] (m : ℕ) (files : List (Option α)) (x y : α) :
    (placeFrom m files x).2.count (some y) = files.count (some y) + if x = y then 1 else 0 := by
  rw [placeFrom]
  split
  · rename_i i hi
    have hfree := free_place hi
    obtain ⟨hlt, hnone⟩ := List.getElem?_eq_some_iff.mp hfree
    rw [count_set hlt, hnone]
    simp
  · split
    · rw [count_append, count_append, count_replicate, count_singleton]
      simp
    · rw [count_append, count_singleton]
      simp

lemma count_close [DecidableEq α] (h : files[i]? = some (some x)) (y : α) :
    (files.set i none).count (some y) = files.count (some y) - if x = y then 1 else 0 := by
  obtain ⟨hlt, hx⟩ := List.getElem?_eq_some_iff.mp h
  rw [count_set hlt, hx]
  simp

end

def GuestFile.handle : GuestFile → Handle
  | .file d => .description d .host
  | .ipaBundleFile d _ => .description d .bundle
  | .resourceFile d => .description d .resource
  | .directory => .directory
  | .pipeRead p => .readEnd p
  | .pipeWrite p => .writeEnd p

def GuestFile.SameKind (g g' : GuestFile) : Prop :=
  ∀ d k k', g.handle = .description d k → g'.handle = .description d k' → k = k'

def Handle.Below (n : ℕ) : Handle → Prop
  | .description d _ => d < n
  | .directory => True
  | .readEnd p | .writeEnd p => p < n

def Posix.cursor (t : Posix) : Handle → Option (ℕ × ℕ)
  | .description d _ => some (d, t.offset d)
  | _ => none

structure Linked (s : State) (t : Posix) : Prop where
  slots : t.slots = s.files.map (Option.map GuestFile.handle)
  content : t.content = s.content
  next : t.next = s.next
  bytes : ∀ p, t.bytes p = (s.pipes p).bytes
  below : ∀ g, some g ∈ s.files → g.handle.Below s.next
  kinds : ∀ g g', some g ∈ s.files → some g' ∈ s.files → GuestFile.SameKind g g'
  position : ∀ g, some g ∈ s.files → s.cursor g = t.cursor g.handle
  readers : ∀ p, (s.pipes p).readHandles = t.descriptors (.readEnd p)
  writers : ∀ p, (s.pipes p).writeHandles = t.descriptors (.writeEnd p)

variable {s : State} {t : Posix} {g : GuestFile} {fd : ℤ} {i q d : ℕ} {k : Whole}

namespace Linked

lemma initial : Linked .initial .initial where
  slots := rfl
  content := rfl
  next := rfl
  bytes _ := rfl
  below _ hg := absurd hg not_mem_nil
  kinds _ _ hg := absurd hg not_mem_nil
  position _ hg := absurd hg not_mem_nil
  readers _ := rfl
  writers _ := rfl

variable (h : Linked s t)

include h

lemma fileForFd_slots (fd : ℤ) :
    fileForFd t.slots fd = (fileForFd s.files fd).map GuestFile.handle := by
  rw [h.slots, fileForFd_map]

omit h in
lemma mem_of_fileForFd (hg : fileForFd s.files fd = some g) : some g ∈ s.files :=
  mem_of_getElem? (fileForFd_eq_some hg)

lemma placed (g : GuestFile) (s' : State) (t' : Posix) (m : ℕ) (hfiles : s'.files = s.files)
    (hslots : t'.slots = t.slots) (hcontent : t'.content = s'.content) (hnext : t'.next = s'.next)
    (hbytes : ∀ p, t'.bytes p = (s'.pipes p).bytes) (hgrow : s.next ≤ s'.next)
    (hposition : ∀ g', some g' ∈ s.files → s'.cursor g' = t'.cursor g'.handle)
    (hbelow : g.handle.Below s'.next) (hkinds : ∀ g', some g' ∈ s.files → GuestFile.SameKind g g')
    (hown : s'.cursor g = t'.cursor g.handle)
    (hreaders : ∀ p, (s'.pipes p).readHandles
      = t.descriptors (.readEnd p) + if g.handle = .readEnd p then 1 else 0)
    (hwriters : ∀ p, (s'.pipes p).writeHandles
      = t.descriptors (.writeEnd p) + if g.handle = .writeEnd p then 1 else 0) :
    Linked { s' with files := (placeFrom m s'.files g).2 }
      { t' with slots := (placeFrom m t'.slots g.handle).2 } where
  slots := by
    change (placeFrom m t'.slots g.handle).2 = _
    rw [hslots, h.slots, placeFrom_map, hfiles]
  content := hcontent
  next := hnext
  bytes := hbytes
  below g' hg' := by
    rcases mem_placeFrom hg' with rfl | hg'
    · exact hbelow
    · rw [hfiles] at hg'
      have hold := h.below g' hg'
      change g'.handle.Below s'.next
      cases hh : g'.handle <;> rw [hh] at hold <;> simp only [Handle.Below] at * <;> omega
  kinds g₁ g₂ hg₁ hg₂ := by
    rcases mem_placeFrom hg₁ with rfl | hold₁ <;> rcases mem_placeFrom hg₂ with rfl | hold₂
    · exact fun d k k' hk hk' => (Handle.description.inj (hk.symm.trans hk')).2
    · rw [hfiles] at hold₂
      exact hkinds g₂ hold₂
    · rw [hfiles] at hold₁
      exact fun d k k' hk hk' => (hkinds g₁ hold₁ d k' k hk' hk).symm
    · rw [hfiles] at hold₁ hold₂
      exact h.kinds g₁ g₂ hold₁ hold₂
  position g' hg' := by
    rcases mem_placeFrom hg' with rfl | hg'
    · exact hown
    · rw [hfiles] at hg'
      exact hposition g' hg'
  readers p := by
    change _ = (placeFrom m t'.slots g.handle).2.count (some (.readEnd p))
    rw [hslots, count_placeFrom]
    exact hreaders p
  writers p := by
    change _ = (placeFrom m t'.slots g.handle).2.count (some (.writeEnd p))
    rw [hslots, count_placeFrom]
    exact hwriters p

lemma place_fst (m : ℕ) (g : GuestFile) :
    (placeFrom m t.slots g.handle).1 = (placeFrom m s.files g).1 := by
  rw [h.slots, placeFrom_map]

lemma descriptors_fresh {hdl : Handle} (hfresh : ¬ hdl.Below s.next) : t.descriptors hdl = 0 := by
  rw [Posix.descriptors, count_eq_zero, h.slots]
  intro hmem
  obtain ⟨slot, hslot, heq⟩ := mem_map.mp hmem
  obtain ⟨g, rfl, rfl⟩ := map_eq_some_iff.mp heq
  exact hfresh (h.below g hslot)

lemma closed (s' : State) (hg : fileForFd s.files fd = some g) (hcontent : s'.content = s.content)
    (hoffset : s'.offset = s.offset) (hnext : s'.next = s.next)
    (hbytes : ∀ p, (s'.pipes p).bytes = (s.pipes p).bytes)
    (hreaders : ∀ p, (s'.pipes p).readHandles
      = t.descriptors (.readEnd p) - if g.handle = .readEnd p then 1 else 0)
    (hwriters : ∀ p, (s'.pipes p).writeHandles
      = t.descriptors (.writeEnd p) - if g.handle = .writeEnd p then 1 else 0) :
    Linked { s' with files := s.files.set (fdToFileIdx fd) none }
      { t with slots := t.slots.set (fdToFileIdx fd) none } := by
  have hslot : t.slots[fdToFileIdx fd]? = some (some g.handle) := by
    rw [h.slots, getElem?_map, fileForFd_eq_some hg]
    rfl
  have hmem : ∀ {g'}, some g' ∈ s.files.set (fdToFileIdx fd) none → some g' ∈ s.files := by
    intro g' hg'
    exact (mem_or_eq_of_mem_set hg').resolve_right (by simp)
  refine ⟨?_, h.content.trans hcontent.symm, h.next.trans hnext.symm,
    fun p => (h.bytes p).trans (hbytes p).symm, fun g' hg' => ?_,
    fun g₁ g₂ hg₁ hg₂ => h.kinds g₁ g₂ (hmem hg₁) (hmem hg₂), fun g' hg' => ?_, fun p => ?_,
    fun p => ?_⟩
  · change t.slots.set (fdToFileIdx fd) none = _
    rw [h.slots, map_set]
    rfl
  · change g'.handle.Below s'.next
    rw [hnext]
    exact h.below g' (hmem hg')
  · have hold := h.position g' (hmem hg')
    refine Eq.trans ?_ hold
    cases g' <;> simp only [State.cursor, hoffset]
  · change _ = (t.slots.set (fdToFileIdx fd) none).count (some (.readEnd p))
    rw [count_close hslot]
    exact hreaders p
  · change _ = (t.slots.set (fdToFileIdx fd) none).count (some (.writeEnd p))
    rw [count_close hslot]
    exact hwriters p

lemma piped (p : ℕ) (l : List ℕ) : Linked (s.setPipe p { s.pipes p with bytes := l })
    { t with bytes := update t.bytes p l } where
  slots := h.slots
  content := h.content
  next := h.next
  bytes p' := by
    rcases eq_or_ne p' p with rfl | hne
    · simp [State.setPipe]
    · simpa [State.setPipe, hne] using h.bytes p'
  below := h.below
  kinds := h.kinds
  position g hg := (h.position g hg :)
  readers p' := by
    refine Eq.trans ?_ (h.readers p')
    rcases eq_or_ne p' p with rfl | hne
    · simp [State.setPipe]
    · simp [State.setPipe, hne]
  writers p' := by
    refine Eq.trans ?_ (h.writers p')
    rcases eq_or_ne p' p with rfl | hne
    · simp [State.setPipe]
    · simp [State.setPipe, hne]

omit h in
lemma mem_set_cases {files : List (Option GuestFile)} {slot : Option GuestFile} {g' : GuestFile}
    (hg' : some g' ∈ files.set i slot) : some g' = slot ∨ some g' ∈ files.set i none := by
  obtain ⟨j, hj⟩ := mem_iff_getElem?.mp hg'
  rcases eq_or_ne i j with rfl | hne
  · have hlt : i < (files.set i slot).length := (List.getElem?_eq_some_iff.mp hj).1
    rw [length_set] at hlt
    rw [getElem?_set_self hlt] at hj
    exact .inl (some.inj hj).symm
  · rw [getElem?_set_ne hne] at hj
    exact .inr (mem_of_getElem? ((getElem?_set_ne hne).trans hj))

omit h in
lemma mem_set_of_elsewhere {files : List (Option GuestFile)} {g' : GuestFile}
    (slot : Option GuestFile) (hg' : some g' ∈ files.set i none) : some g' ∈ files.set i slot := by
  obtain ⟨j, hj⟩ := mem_iff_getElem?.mp hg'
  rcases eq_or_ne i j with rfl | hne
  · have hlt : i < (files.set i none).length := (List.getElem?_eq_some_iff.mp hj).1
    rw [length_set] at hlt
    rw [getElem?_set_self hlt] at hj
    cases hj
  · rw [getElem?_set_ne hne] at hj
    exact mem_of_getElem? ((getElem?_set_ne hne).trans hj)

lemma count_elsewhere (hg : fileForFd s.files fd = some g) :
    ((s.files.set (fdToFileIdx fd) none).map (Option.map GuestFile.handle)).count (some g.handle)
      = t.descriptors g.handle - 1 := by
  have hslot : t.slots[fdToFileIdx fd]? = some (some g.handle) := by
    rw [h.slots, getElem?_map, fileForFd_eq_some hg]
    rfl
  have hcount := count_close hslot g.handle
  rw [if_pos rfl] at hcount
  rw [map_set, ← h.slots]
  exact hcount

lemma moved (hg : fileForFd s.files fd = some g) (hk : g.handle = .description d k)
    (halone : k = .bundle → q = t.offset d ∨ t.descriptors (.description d .bundle) = 1) :
    Linked (s.setPosition (fdToFileIdx fd) q g) { t with offset := update t.offset d q } := by
  have hmem := mem_of_fileForFd hg
  cases g with
  | file d' | resourceFile d' =>
    obtain ⟨rfl, rfl⟩ := Handle.description.inj hk
    refine ⟨h.slots, h.content, h.next, h.bytes, h.below, h.kinds, fun g' hg' => ?_, h.readers,
      h.writers⟩
    have hold := h.position g' hg'
    have hkind := h.kinds _ g' hmem hg' d'
    cases g' with
    | file e | resourceFile e =>
      rcases eq_or_ne e d' with rfl | hne
      · simp [State.setPosition, State.cursor, Posix.cursor, GuestFile.handle]
      · simpa [State.setPosition, State.cursor, Posix.cursor, GuestFile.handle, hne] using hold
    | ipaBundleFile e pos =>
      rcases eq_or_ne e d' with rfl | hne
      · exact absurd (hkind _ _ rfl rfl) (by decide)
      · simpa [State.setPosition, State.cursor, Posix.cursor, GuestFile.handle, hne] using hold
    | directory | pipeRead _ | pipeWrite _ => rfl
  | ipaBundleFile d' pos =>
    obtain ⟨rfl, rfl⟩ := Handle.description.inj hk
    have hold : ∀ {g'}, some g' ∈ s.files.set (fdToFileIdx fd) (some (.ipaBundleFile d' q)) →
        ∃ g'', some g'' ∈ s.files ∧ g''.handle = g'.handle := by
      intro g' hg'
      rcases mem_or_eq_of_mem_set hg' with hg' | hg'
      · exact ⟨g', hg', rfl⟩
      · obtain rfl := some.inj hg'
        exact ⟨_, hmem, rfl⟩
    refine ⟨?_, h.content, h.next, h.bytes, fun g' hg' => ?_, fun g₁ g₂ hg₁ hg₂ => ?_,
      fun g' hg' => ?_, h.readers, h.writers⟩
    · have hslot : t.slots[fdToFileIdx fd]? = some (some (.description d' .bundle)) := by
        rw [h.slots, getElem?_map, fileForFd_eq_some hg]
        rfl
      obtain ⟨hlt, hget⟩ := List.getElem?_eq_some_iff.mp hslot
      change t.slots = (s.files.set (fdToFileIdx fd) (some (.ipaBundleFile d' q))).map _
      rw [map_set, ← h.slots]
      exact ((congrArg (t.slots.set (fdToFileIdx fd)) hget).symm.trans
        (set_getElem_self hlt)).symm
    · obtain ⟨g'', hg'', heq⟩ := hold hg'
      exact heq ▸ h.below g'' hg''
    · obtain ⟨g₁', hg₁', heq₁⟩ := hold hg₁
      obtain ⟨g₂', hg₂', heq₂⟩ := hold hg₂
      intro e k k' hk₁ hk₂
      exact h.kinds g₁' g₂' hg₁' hg₂' e k k' (heq₁.trans hk₁) (heq₂.trans hk₂)
    · rcases mem_set_cases hg' with hown | helse
      · obtain rfl := some.inj hown
        simp [State.cursor, Posix.cursor, GuestFile.handle]
      · have hthere : some g' ∈ s.files := (mem_or_eq_of_mem_set helse).resolve_right (by simp)
        have hposition := h.position g' hthere
        have hsame : (s.setPosition (fdToFileIdx fd) q (.ipaBundleFile d' pos)).cursor g'
            = s.cursor g' := by cases g' <;> rfl
        rw [hsame, hposition]
        by_cases hother : g'.handle = .description d' .bundle
        · rcases halone rfl with rfl | hone
          · rw [update_eq_self]
          · have hnone := h.count_elsewhere hg
            rw [show (GuestFile.ipaBundleFile d' pos).handle = .description d' .bundle from rfl, hone,
              count_eq_zero] at hnone
            have hmap : Option.map GuestFile.handle (some g') = some (.description d' .bundle) :=
              congrArg some hother
            exact absurd (mem_map.mpr ⟨some g', helse, hmap⟩) hnone
        · cases hh : g'.handle with
          | description e k =>
            rcases eq_or_ne e d' with rfl | hne
            · have hkind := h.kinds _ g' hmem hthere e .bundle k rfl hh
              exact absurd (hkind ▸ hh) hother
            · simp [Posix.cursor, hne]
          | directory | readEnd _ | writeEnd _ => rfl
  | directory | pipeRead _ | pipeWrite _ => cases hk

lemma not_moved (hg : fileForFd s.files fd = some (.ipaBundleFile d i)) (hq : q ≠ t.offset d)
    (hothers : t.descriptors (.description d .bundle) ≠ 1) :
    ¬ Linked (s.setPosition (fdToFileIdx fd) q (.ipaBundleFile d i))
      { t with offset := update t.offset d q } := by
  intro hlinked
  have hslot : some (.description d .bundle) ∈ t.slots := by
    rw [h.slots]
    exact mem_map.mpr ⟨_, mem_of_fileForFd hg, rfl⟩
  have hpos : 0 < t.descriptors (.description d .bundle) := count_pos_iff.mpr hslot
  have hcount := h.count_elsewhere hg
  have hmore : some (GuestFile.ipaBundleFile d i).handle ∈
      (s.files.set (fdToFileIdx fd) none).map (Option.map GuestFile.handle) := by
    refine count_pos_iff.mp ?_
    rw [hcount]
    change 0 < t.descriptors (.description d .bundle) - 1
    omega
  obtain ⟨slot, helse, hslot⟩ := mem_map.mp hmore
  obtain ⟨g', rfl, hh⟩ := map_eq_some_iff.mp hslot
  have hthere : some g' ∈ s.files := (mem_or_eq_of_mem_set helse).resolve_right (by simp)
  have hbefore := h.position g' hthere
  have hafter := hlinked.position g' (mem_set_of_elsewhere _ helse)
  have hsame : (s.setPosition (fdToFileIdx fd) q (.ipaBundleFile d i)).cursor g' = s.cursor g' := by
    cases g' with
    | file e | resourceFile e => rfl
    | ipaBundleFile e pos => rfl
    | directory | pipeRead _ | pipeWrite _ => rfl
  rw [hsame, hbefore, hh] at hafter
  have heq := (Prod.mk.inj (some.inj hafter)).2
  exact hq (heq.trans (update_self d q t.offset)).symm

end Linked

def Follows (x : Answer × State) (y : Answer × Posix) : Prop := x.1 = y.1 ∧ Linked x.2 y.2

def MovesAlone (t : Posix) (fd : ℤ) (target : ℕ → ℕ → ℕ) : Prop :=
  ∀ d, fileForFd t.slots fd = some (.description d .bundle) →
    target (t.offset d) (t.content d).length = t.offset d ∨
      t.descriptors (.description d .bundle) = 1

def readTarget (size position length : ℕ) : ℕ := position + min size (length - position)

def lseekTarget (offset whence : ℤ) (position length : ℕ) : ℕ :=
  match seekTarget position length offset whence with
  | .ok q => q
  | .error _ => position

def Alone (t : Posix) : Op → Prop
  | .read fd size => MovesAlone t fd (readTarget size)
  | .lseek fd offset whence => MovesAlone t fd (lseekTarget offset whence)
  | _ => True

namespace Linked

variable (h : Linked s t)

include h

lemma cursor_eq {e pos : ℕ} (hg : fileForFd s.files fd = some g) (hk : g.handle = .description d k)
    (hcursor : s.cursor g = some (e, pos)) : pos = t.offset d := by
  have hposition := h.position g (mem_of_fileForFd hg)
  rw [hcursor, hk] at hposition
  exact (Prod.mk.inj (some.inj hposition)).2

lemma read_length (d size position : ℕ) :
    position + (((s.content d).drop position).take size).length
      = readTarget size position (t.content d).length := by
  rw [readTarget, h.content, length_take, length_drop]

lemma follows_read (size : ℕ) (halone : MovesAlone t fd (readTarget size)) :
    Follows (s.read fd size) (t.read fd size) := by
  rw [State.read, Posix.read, h.fileForFd_slots]
  cases hg : fileForFd s.files fd with
  | none => exact ⟨rfl, h⟩
  | some g =>
    have hslot := h.fileForFd_slots fd
    rw [hg] at hslot
    have hdescription : ∀ d k pos, g.handle = .description d k → pos = t.offset d → Follows
        (got (((s.content d).drop pos).take size), s.setPosition (fdToFileIdx fd)
          (pos + (((s.content d).drop pos).take size).length) g)
        (got (((t.content d).drop (t.offset d)).take size), { t with
          offset := update t.offset d
            (t.offset d + (((t.content d).drop (t.offset d)).take size).length) }) := by
      rintro d k _ hk rfl
      rw [congrFun h.content d]
      refine ⟨rfl, h.moved hg hk fun hbundle => ?_⟩
      rw [h.read_length]
      exact halone d (hslot.trans (by rw [map_some, hk, hbundle]))
    cases g with
    | file d =>
      exact hdescription d .host _ rfl (h.cursor_eq hg rfl rfl)
    | ipaBundleFile d pos =>
      exact hdescription d .bundle pos rfl
        (h.cursor_eq hg rfl rfl)
    | resourceFile d =>
      exact hdescription d .resource _ rfl
        (h.cursor_eq hg rfl rfl)
    | directory => exact ⟨rfl, h⟩
    | pipeWrite p => exact ⟨rfl, h⟩
    | pipeRead p =>
      change Follows (s.readPipe p size) _
      rw [State.readPipe, map_some, GuestFile.handle]
      simp only [h.bytes p, ← h.writers p]
      split
      · exact ⟨rfl, h⟩
      · split
        · split
          · exact ⟨rfl, h⟩
          · exact ⟨rfl, h⟩
        · exact ⟨rfl, h.piped p _⟩

lemma follows_lseek (offset whence : ℤ) (halone : MovesAlone t fd (lseekTarget offset whence)) :
    Follows (s.lseek fd offset whence) (t.lseek fd offset whence) := by
  rw [State.lseek, Posix.lseek, h.fileForFd_slots]
  cases hg : fileForFd s.files fd with
  | none => exact ⟨rfl, h⟩
  | some g =>
    have hslot := h.fileForFd_slots fd
    rw [hg] at hslot
    have hdescription : ∀ d k pos, g.handle = .description d k → pos = t.offset d → Follows
        (match seekTarget pos (s.content d).length offset whence with
          | .error e => (failed (some e), s)
          | .ok q => (done q, s.setPosition (fdToFileIdx fd) q g))
        (match seekTarget (t.offset d) (t.content d).length offset whence with
          | .error e => (failed (some e), t)
          | .ok q => (done q, { t with offset := update t.offset d q })) := by
      rintro d k _ hk rfl
      rw [congrFun h.content d]
      cases htarget : seekTarget (t.offset d) (s.content d).length offset whence with
      | error e => exact ⟨rfl, h⟩
      | ok q =>
        refine ⟨rfl, h.moved hg hk fun hbundle => ?_⟩
        have hq : lseekTarget offset whence (t.offset d) (t.content d).length = q := by
          rw [lseekTarget, congrFun h.content d, htarget]
        rw [← hq]
        exact halone d (hslot.trans (by rw [map_some, hk, hbundle]))
    cases g with
    | file d => exact hdescription d .host _ rfl (h.cursor_eq hg rfl rfl)
    | ipaBundleFile d pos => exact hdescription d .bundle pos rfl (h.cursor_eq hg rfl rfl)
    | resourceFile d => exact hdescription d .resource _ rfl (h.cursor_eq hg rfl rfl)
    | directory | pipeRead _ | pipeWrite _ => exact ⟨rfl, h⟩

lemma follows_write (fd : ℤ) (bytes : List ℕ) : Follows (s.write fd bytes) (t.write fd bytes) := by
  rw [State.write, Posix.write, h.fileForFd_slots]
  cases fileForFd s.files fd with
  | none => exact ⟨rfl, h⟩
  | some g =>
    cases g with
    | pipeWrite p =>
      change Follows (s.writePipe p bytes) _
      rw [State.writePipe, map_some, GuestFile.handle]
      simp only [h.bytes p, ← h.readers p]
      split
      · exact ⟨rfl, h⟩
      · exact ⟨rfl, h.piped p _⟩
    | file _ | ipaBundleFile _ _ | resourceFile _ | directory | pipeRead _ => exact ⟨rfl, h⟩

lemma follows_close (fd : ℤ) : Follows (s.close fd) (t.close fd) := by
  rw [State.close, Posix.close, h.fileForFd_slots]
  split
  · exact ⟨rfl, h⟩
  split
  · exact ⟨rfl, h⟩
  cases hg : fileForFd s.files fd with
  | none => exact ⟨rfl, h⟩
  | some g =>
    refine ⟨rfl, ?_⟩
    cases g with
    | file _ | ipaBundleFile _ _ | resourceFile _ | directory =>
      exact h.closed s hg rfl rfl rfl (fun _ => rfl) h.readers h.writers
    | pipeRead p =>
      refine h.closed (s.closePipeEndpoint (.pipeRead p)) hg rfl rfl rfl (fun p' => ?_)
        (fun p' => ?_) fun p' => ?_
      · rcases eq_or_ne p' p with rfl | hne
        · simp [State.closePipeEndpoint, State.setPipe]
        · simp [State.closePipeEndpoint, State.setPipe, hne]
      · rw [← h.readers]
        rcases eq_or_ne p' p with rfl | hne
        · simp [State.closePipeEndpoint, State.setPipe, GuestFile.handle]
        · simp [State.closePipeEndpoint, State.setPipe, GuestFile.handle, hne, hne.symm]
      · rw [← h.writers]
        rcases eq_or_ne p' p with rfl | hne
        · simp [State.closePipeEndpoint, State.setPipe, GuestFile.handle]
        · simp [State.closePipeEndpoint, State.setPipe, GuestFile.handle, hne]
    | pipeWrite p =>
      refine h.closed (s.closePipeEndpoint (.pipeWrite p)) hg rfl rfl rfl (fun p' => ?_)
        (fun p' => ?_) fun p' => ?_
      · rcases eq_or_ne p' p with rfl | hne
        · simp [State.closePipeEndpoint, State.setPipe]
        · simp [State.closePipeEndpoint, State.setPipe, hne]
      · rw [← h.readers]
        rcases eq_or_ne p' p with rfl | hne
        · simp [State.closePipeEndpoint, State.setPipe, GuestFile.handle]
        · simp [State.closePipeEndpoint, State.setPipe, GuestFile.handle, hne]
      · rw [← h.writers]
        rcases eq_or_ne p' p with rfl | hne
        · simp [State.closePipeEndpoint, State.setPipe, GuestFile.handle]
        · simp [State.closePipeEndpoint, State.setPipe, GuestFile.handle, hne, hne.symm]

lemma follows_dupFd (fd minFd : ℤ) : Follows (s.dupFd fd minFd) (t.dupFd fd minFd) := by
  rw [State.dupFd, Posix.dupFd, h.fileForFd_slots]
  cases hg : fileForFd s.files fd with
  | none => exact ⟨rfl, h⟩
  | some g =>
    have hmem := mem_of_fileForFd hg
    have hanswer := congrArg (fun i => done (fileIdxToFd i)) (h.place_fst (minIdxOf minFd) g)
    have hplaced := fun s' hfiles hcontent hnext hbytes hposition =>
      h.placed g s' t (minIdxOf minFd) hfiles rfl hcontent hnext hbytes (hnext ▸ h.next.ge) hposition
        (hnext ▸ h.next ▸ h.below g hmem) (fun g' hg' => h.kinds g g' hmem hg') (hposition g hmem)
    cases g with
    | resourceFile _ => exact ⟨rfl, h⟩
    | file _ | ipaBundleFile _ _ | directory =>
      exact ⟨hanswer.symm, hplaced s rfl h.content h.next h.bytes h.position h.readers h.writers⟩
    | pipeRead p =>
      refine ⟨hanswer.symm, hplaced (s.setPipe p _) rfl h.content h.next (fun p' => ?_) h.position
        (fun p' => ?_) fun p' => ?_⟩
      · rw [h.bytes]
        rcases eq_or_ne p' p with rfl | hne
        · simp [State.setPipe]
        · simp [State.setPipe, hne]
      · rw [← h.readers]
        rcases eq_or_ne p' p with rfl | hne
        · simp [State.setPipe, GuestFile.handle]
        · simp [State.setPipe, GuestFile.handle, hne, hne.symm]
      · rw [← h.writers]
        rcases eq_or_ne p' p with rfl | hne
        · simp [State.setPipe, GuestFile.handle]
        · simp [State.setPipe, GuestFile.handle, hne]
    | pipeWrite p =>
      refine ⟨hanswer.symm, hplaced (s.setPipe p _) rfl h.content h.next (fun p' => ?_) h.position
        (fun p' => ?_) fun p' => ?_⟩
      · rw [h.bytes]
        rcases eq_or_ne p' p with rfl | hne
        · simp [State.setPipe]
        · simp [State.setPipe, hne]
      · rw [← h.readers]
        rcases eq_or_ne p' p with rfl | hne
        · simp [State.setPipe, GuestFile.handle]
        · simp [State.setPipe, GuestFile.handle, hne]
      · rw [← h.writers]
        rcases eq_or_ne p' p with rfl | hne
        · simp [State.setPipe, GuestFile.handle]
        · simp [State.setPipe, GuestFile.handle, hne, hne.symm]

lemma follows_openDirectory : Follows s.openDirectory (t.openHandle .directory) := by
  have hanswer := congrArg (fun i => done (fileIdxToFd i)) (h.place_fst 0 .directory)
  refine ⟨hanswer.symm, ?_⟩
  exact h.placed .directory s t 0 rfl rfl h.content h.next h.bytes le_rfl
    h.position trivial (fun _ _ _ _ _ hk _ => nomatch hk) rfl h.readers h.writers

lemma sameKind_fresh (hk : g.handle = .description s.next k) {g' : GuestFile}
    (hg' : some g' ∈ s.files) : GuestFile.SameKind g g' := by
  intro d k₁ k₂ hk₁ hk₂
  have hbelow := h.below g' hg'
  obtain ⟨rfl, -⟩ := Handle.description.inj (hk.symm.trans hk₁)
  rw [hk₂] at hbelow
  exact absurd hbelow (lt_irrefl _)

lemma follows_openFile (kind : Whole) (content : List ℕ) :
    Follows (s.openFile kind content) (t.exec (.openFile kind content)) := by
  have hopened : (State.opened s.next kind).handle = .description t.next kind := by
    rw [h.next]
    cases kind <;> rfl
  have hanswer := congrArg (fun i => done (fileIdxToFd i)) (h.place_fst 0 (State.opened s.next kind))
  have hother : ∀ p, (State.opened s.next kind).handle ≠ .readEnd p ∧
      (State.opened s.next kind).handle ≠ .writeEnd p := by
    intro p
    rw [hopened]
    exact ⟨nofun, nofun⟩
  have hplaced := h.placed (State.opened s.next kind)
    { s with
      content := update s.content s.next content
      offset := update s.offset s.next 0
      next := s.next + 1 }
    { t with
      content := update t.content t.next content
      offset := update t.offset t.next 0
      next := t.next + 1 } 0 rfl rfl (by simp only [h.content, h.next]) (by simp only [h.next]) h.bytes
    (Nat.le_succ _) (fun g' hg' => ?_) ?_ (fun g' hg' => ?_) ?_ (fun p => ?_) fun p => ?_
  · rw [hopened] at hplaced hanswer
    exact ⟨hanswer.symm, hplaced⟩
  · have hold := h.position g' hg'
    have hbelow := h.below g' hg'
    rw [h.next]
    cases g' with
    | file e | resourceFile e =>
      have hne : e ≠ s.next := Nat.ne_of_lt hbelow
      simpa [State.cursor, Posix.cursor, GuestFile.handle, hne] using hold
    | ipaBundleFile e pos =>
      have hne : e ≠ s.next := Nat.ne_of_lt hbelow
      simpa [State.cursor, Posix.cursor, GuestFile.handle, hne] using hold
    | directory | pipeRead _ | pipeWrite _ => rfl
  · rw [hopened, h.next]
    exact Nat.lt_succ_self _
  · exact h.sameKind_fresh (hopened.trans (by rw [h.next])) hg'
  · rw [h.next]
    cases kind <;> simp [State.opened, State.cursor, Posix.cursor, GuestFile.handle]
  · rw [if_neg (hother p).1]
    exact h.readers p
  · rw [if_neg (hother p).2]
    exact h.writers p

lemma follows_pipe : Follows s.pipe t.pipe := by
  have hreadFresh : t.descriptors (.readEnd s.next) = 0 := h.descriptors_fresh (lt_irrefl _)
  have hwriteFresh : t.descriptors (.writeEnd s.next) = 0 := h.descriptors_fresh (lt_irrefl _)
  have hbytes : ∀ p, update t.bytes s.next [] p
      = (update s.pipes s.next ⟨[], 1, 1⟩ p).bytes := by
    intro p
    rcases eq_or_ne p s.next with rfl | hne
    · simp
    · simpa [hne] using h.bytes p
  -- the read end alone, while the write end is not counted yet
  have hread := h.placed (.pipeRead s.next)
    { s with pipes := update s.pipes s.next ⟨[], 1, 0⟩, next := s.next + 1 }
    { t with bytes := update t.bytes s.next [], next := s.next + 1 } 0 rfl rfl
    h.content rfl (fun p => ?_) (Nat.le_succ _) h.position (Nat.lt_succ_self _)
    (fun _ _ _ _ _ hk _ => nomatch hk) rfl (fun p => ?_) fun p => ?_
  · have hwrite := hread.placed (.pipeWrite s.next)
      { s with
        files := (placeFrom 0 s.files (.pipeRead s.next)).2
        pipes := update s.pipes s.next ⟨[], 1, 1⟩
        next := s.next + 1 }
      { t with
        slots := (placeFrom 0 t.slots (.readEnd s.next)).2
        bytes := update t.bytes s.next []
        next := s.next + 1 } 0 rfl rfl h.content rfl hbytes le_rfl hread.position
      (Nat.lt_succ_self _) (fun _ _ _ _ _ hk _ => nomatch hk) rfl (fun p => ?_) fun p => ?_
    · have hfirst := h.place_fst 0 (.pipeRead s.next)
      have hsecond := hread.place_fst 0 (.pipeWrite s.next)
      rw [Follows, Posix.pipe, h.next]
      refine ⟨?_, hwrite⟩
      exact congrArg₂ (fun i j => (⟨0, none, [i + 3, j + 3]⟩ : Answer)) hfirst.symm hsecond.symm
    · rw [← hread.readers]
      rcases eq_or_ne p s.next with rfl | hne
      · simp [GuestFile.handle]
      · simp [GuestFile.handle, hne]
    · rw [← hread.writers]
      rcases eq_or_ne p s.next with rfl | hne
      · simp [GuestFile.handle]
      · simp [GuestFile.handle, hne, hne.symm]
  · refine (hbytes p).trans ?_
    rcases eq_or_ne p s.next with rfl | hne
    · simp
    · simp [hne]
  · rcases eq_or_ne p s.next with rfl | hne
    · simp [GuestFile.handle, hreadFresh]
    · simpa [GuestFile.handle, hne, hne.symm] using h.readers p
  · rcases eq_or_ne p s.next with rfl | hne
    · simp [GuestFile.handle, hwriteFresh]
    · simpa [GuestFile.handle, hne] using h.writers p

lemma follows_exec (op : Op) (halone : Alone t op) : Follows (s.exec op) (t.exec op) := by
  cases op with
  | openFile kind content => exact h.follows_openFile kind content
  | openDirectory => exact h.follows_openDirectory
  | pipe => exact h.follows_pipe
  | dupFd fd minFd => exact h.follows_dupFd fd minFd
  | read fd size => exact h.follows_read size halone
  | write fd bytes => exact h.follows_write fd bytes
  | lseek fd offset whence => exact h.follows_lseek offset whence halone
  | close fd => exact h.follows_close fd

lemma bundle_of_slot (hslot : fileForFd t.slots fd = some (.description d .bundle)) :
    fileForFd s.files fd = some (.ipaBundleFile d (t.offset d)) := by
  rw [h.fileForFd_slots] at hslot
  obtain ⟨g, hg, hk⟩ := map_eq_some_iff.mp hslot
  cases g with
  | ipaBundleFile e pos =>
    obtain ⟨rfl, -⟩ := Handle.description.inj hk
    rw [hg, h.cursor_eq hg rfl rfl]
  | file _ | resourceFile _ | directory | pipeRead _ | pipeWrite _ => cases hk

lemma not_linked_read {size : ℕ} (hbad : ¬ MovesAlone t fd (readTarget size)) :
    ¬ Linked (s.read fd size).2 (t.read fd size).2 := by
  rw [MovesAlone] at hbad
  push Not at hbad
  obtain ⟨d, hslot, hmoves, hothers⟩ := hbad
  have hg := h.bundle_of_slot hslot
  have hlength := h.read_length d size (t.offset d)
  rw [← hlength] at hmoves
  rw [State.read, Posix.read, hg, hslot]
  simp only [State.cursor, congrFun h.content d]
  exact h.not_moved hg hmoves hothers

lemma not_linked_lseek {offset whence : ℤ} (hbad : ¬ MovesAlone t fd (lseekTarget offset whence)) :
    ¬ Linked (s.lseek fd offset whence).2 (t.lseek fd offset whence).2 := by
  rw [MovesAlone] at hbad
  push Not at hbad
  obtain ⟨d, hslot, hmoves, hothers⟩ := hbad
  have hg := h.bundle_of_slot hslot
  rw [State.lseek, Posix.lseek, hg, hslot]
  simp only [State.cursor, ← congrFun h.content d]
  rw [lseekTarget] at hmoves
  cases htarget : seekTarget (t.offset d) (t.content d).length offset whence with
  | error e =>
    rw [htarget] at hmoves
    exact absurd rfl hmoves
  | ok q =>
    rw [htarget] at hmoves
    exact h.not_moved hg hmoves hothers

lemma not_linked_exec {op : Op} (hbad : ¬ Alone t op) : ¬ Linked (s.exec op).2 (t.exec op).2 := by
  cases op with
  | read fd size => exact h.not_linked_read hbad
  | lseek fd offset whence => exact h.not_linked_lseek hbad
  | openFile _ _ | openDirectory | pipe | dupFd _ _ | write _ _ | close _ => exact absurd trivial hbad

end Linked

def stepTogether (p : State × Posix) (op : Op) : Checked (State × Posix) :=
  if (p.1.exec op).1 = (p.2.exec op).1 then .ok ((p.1.exec op).2, (p.2.exec op).2)
  else .error .assertion

def together : State × Posix := (.initial, .initial)

lemma stepTogether_eq_ok {p p' : State × Posix} {op : Op} (h : stepTogether p op = .ok p') :
    p' = ((p.1.exec op).2, (p.2.exec op).2) := by
  rw [stepTogether] at h
  split at h
  · exact (Except.ok.inj h).symm
  · cases h

lemma exists_stepTogether {p : State × Posix} {op : Op} (h : Linked p.1 p.2) (halone : Alone p.2 op) :
    ∃ p', stepTogether p op = .ok p' ∧ Linked p'.1 p'.2 := by
  obtain ⟨hanswer, hlinked⟩ := h.follows_exec op halone
  exact ⟨_, if_pos hanswer, hlinked⟩

/-- The answers are those of shared file descriptions, and the descriptors stay linked to these, if and
only if no file of the bundle is read or sought in while it has more than one descriptor. -/
theorem duplicates_share_iff (ops : List Op) :
    ((∃ p, run stepTogether together ops = .ok p) ∧
      Along stepTogether (fun p op => ∀ p', stepTogether p op = .ok p' → Linked p'.1 p'.2)
        together ops) ↔
      Along stepTogether (fun p op => Alone p.2 op) together ops := by
  have hgood : ∀ p op p', Linked p.1 p.2 → Alone p.2 op → stepTogether p op = .ok p' →
      Linked p'.1 p'.2 := by
    intro p op p' h halone hstep
    obtain ⟨p'', hstep', hlinked⟩ := exists_stepTogether h halone
    obtain rfl := Except.ok.inj (hstep'.symm.trans hstep)
    exact hlinked
  have hbad : ∀ p op p', Linked p.1 p.2 → ¬ Alone p.2 op → stepTogether p op = .ok p' →
      ¬ Linked p'.1 p'.2 := by
    intro p op p' h halone hstep
    obtain rfl := stepTogether_eq_ok hstep
    exact h.not_linked_exec halone
  have halways := fun p (hrun : run stepTogether together ops = .ok p) =>
    always_iff_along (I := fun p => Linked p.1 p.2) (Q := fun p => Linked p.1 p.2) hgood hbad
      (fun _ h => h) Linked.initial hrun
  constructor
  · rintro ⟨⟨p, hrun⟩, hlinked⟩
    exact (halways p hrun).mp hlinked
  · intro halone
    obtain ⟨p, hrun, -⟩ := run_ok_of_along (I := fun p => Linked p.1 p.2)
      (fun p op h halone => exists_stepTogether h halone) Linked.initial halone
    exact ⟨⟨p, hrun⟩, (halways p hrun).mpr halone⟩

def readTwice : List Op := [.openFile .bundle [7, 8], .dupFd 3 0, .read 3 1, .read 4 1]

theorem duplicates_do_not_share : ¬ ∀ ops, ∃ p, run stepTogether together ops = .ok p := by
  intro hall
  obtain ⟨p, hp⟩ := hall readTwice
  have hfault : fault (run stepTogether together readTwice) = some .assertion := by decide
  rw [hp] at hfault
  cases hfault

end TouchHle.Filesystem.Descriptors
