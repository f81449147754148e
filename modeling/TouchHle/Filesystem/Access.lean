import TouchHle.Filesystem.NormalForm
import TouchHle.Http.Message

namespace TouchHle.Filesystem

open Lib Lib.Text Http

def Fs.access (fs : Fs) (path : Text) : Bool × Bool × Bool × Bool :=
  match fs.lookupNode path with
  | none => (false, false, false, false)
  | some (.leaf file) => (true, true, file.writeable, false)
  | some (.node writeable _) => (true, true, writeable.isSome, true)

def trimStartMatches (c : Char) (s : Text) : Text := s.dropWhile fun x => x = c

def trimDotSlash : Text → Text
  | '.' :: '/' :: s => trimDotSlash s
  | s => s

def isAppBundle (component : Text) : Bool :=
  eqIgnoreAsciiCase (component.drop (component.length - 4)) ".app".toList

def afterAppBundle (path : Text) : List Text → ℕ → Option Text
  | [], _ => none
  | component :: components, componentStart =>
    let componentEnd := componentStart + component.length
    if isAppBundle component then some (trimStartMatches '/' (path.drop componentEnd))
    else afterAppBundle path components (componentEnd + 1)

def pathAfterAppBundleComponent (path : Text) : Option Text :=
  afterAppBundle path (path.splitOn '/') 0

def stripUdkGameBundlePrefix (path : Text) : Option Text :=
  let normalized := path.map fun c => if c = '\\' then '/' else c
  let path := ("./".toList.isPrefixOf? normalized).getD normalized
  ("../".toList.isPrefixOf? path).bind fun relative =>
    let (root, contents) := (splitOnce '/' relative).getD (relative, [])
    if eqIgnoreAsciiCase root "UDKGame".toList then some contents else none

def bundleRelative (bundleRoot path : Text) : Option Text :=
  if path = bundleRoot then some []
  else
    match (bundleRoot.isPrefixOf? path).filter fun relative => relative.head? = some '/' with
    | some relative => some (trimStartMatches '/' relative)
    | none =>
      if path.head? = some '/' then pathAfterAppBundleComponent path else some (trimDotSlash path)

def dataRelativePath (relativePath : Text) : Text :=
  match splitOnce '/' relativePath with
  | some (component, remainder) =>
    if eqIgnoreAsciiCase component "Data".toList then remainder else relativePath
  | none => relativePath

def bundleCandidates (bundleRoot relativePath : Text) : List Text :=
  let dataRelative := dataRelativePath relativePath
  [bundleRoot ++ '/' :: relativePath, bundleRoot ++ "/Data/".toList ++ dataRelative] ++
    if dataRelative ≠ relativePath then [bundleRoot ++ '/' :: dataRelative] else []

def resolveExistingGuestPath (fs : Fs) (platform : Platform) (bundlePath path : Text) :
    Option AbsolutePath :=
  match fs.resolveCaseInsensitivePath platform path with
  | some resolved => some resolved
  | none =>
    let bundleRoot := trimEndMatches '/' bundlePath
    (bundleRelative bundleRoot path).bind fun relative =>
      let relativePath := (stripUdkGameBundlePrefix relative).getD relative
      (bundleCandidates bundleRoot relativePath).findSome? (fs.resolveCaseInsensitivePath platform)

abbrev AccessMode := BitVec 32

def fOk : AccessMode := 0
def xOk : AccessMode := 1
def wOk : AccessMode := 2
def rOk : AccessMode := 4

def validModeBits : AccessMode := fOk ||| rOk ||| wOk ||| xOk

inductive AccessErrno
  | enoent
  | eacces
  | einval
  deriving DecidableEq

abbrev Status := ℤ × Option AccessErrno

def granted : Status := (0, none)
def refusal (e : AccessErrno) : Status := (-1, some e)

def checkPermissions (mode : AccessMode) (read write execute : Bool) : Status :=
  if mode &&& rOk ≠ 0 ∧ read = false then refusal .eacces
  else if mode &&& wOk ≠ 0 ∧ write = false then refusal .eacces
  else if mode &&& xOk ≠ 0 ∧ execute = false then refusal .eacces
  else granted

def access (fs : Fs) (platform : Platform) (bundlePath : Text) (path : List UInt8)
    (mode : AccessMode) : Status :=
  match (fromUtf8 path).bind (resolveExistingGuestPath fs platform bundlePath) with
  | none => refusal .enoent
  | some resolved =>
    let (present, read, write, execute) := fs.access resolved.text
    if mode = fOk then (if present then granted else refusal .enoent)
    else if mode &&& ~~~validModeBits ≠ mode ∨ mode = 0 then refusal .einval
    else checkPermissions mode read write execute

variable {fs : Fs} {platform : Platform} {bundlePath : Text} {path : List UInt8} {mode : AccessMode}

def resolved (fs : Fs) (platform : Platform) (bundlePath : Text) (path : List UInt8) :
    Option AbsolutePath :=
  (fromUtf8 path).bind (resolveExistingGuestPath fs platform bundlePath)

def target (fs : Fs) (platform : Platform) (bundlePath : Text) (path : List UInt8) : Option FsNode :=
  (resolved fs platform bundlePath path).bind fun r => fs.lookupNode r.text

def permissions : FsNode → AccessMode
  | .leaf file => rOk ||| if file.writeable then wOk else 0
  | .node writeable _ => rOk ||| xOk ||| if writeable.isSome then wOk else 0

structure AccessAgrees (fs : Fs) (platform : Platform) (bundlePath : Text) (path : List UInt8)
    (mode : AccessMode) : Prop where
  grants : mode &&& ~~~validModeBits = 0 →
    (access fs platform bundlePath path mode = granted ↔
      ∃ node, target fs platform bundlePath path = some node ∧ mode &&& permissions node = mode)
  refuses : mode &&& ~~~validModeBits = 0 → access fs platform bundlePath path mode ≠ granted →
    access fs platform bundlePath path mode =
      refusal (if target fs platform bundlePath path = none then .enoent else .eacces)
  invalid : mode &&& ~~~validModeBits ≠ 0 → access fs platform bundlePath path mode = refusal .einval
  monotone : access fs platform bundlePath path mode = granted → ∀ smaller,
    smaller &&& mode = smaller → access fs platform bundlePath path smaller = granted

section

variable {m v : BitVec 32}

lemma and_not_eq_self_iff : m &&& ~~~v = m ↔ m &&& v = 0 := by
  constructor
  · intro h
    rw [← h, BitVec.and_assoc, BitVec.not_and_self]
    exact BitVec.and_zero
  · intro h
    calc m &&& ~~~v = (m &&& ~~~v) ||| (m &&& v) := by rw [h]; exact BitVec.or_zero.symm
      _ = m &&& (~~~v ||| v) := (BitVec.and_or_distrib_left).symm
      _ = m := by rw [BitVec.not_or_self, BitVec.and_allOnes]

lemma eq_zero_of_and (h : m &&& v = 0) (h' : m &&& ~~~v = 0) : m = 0 :=
  (and_not_eq_self_iff.mpr h).symm.trans h'

end

lemma access_unresolved (h : resolved fs platform bundlePath path = none) (mode : AccessMode) :
    access fs platform bundlePath path mode = refusal .enoent := by
  rw [resolved] at h
  rw [access, h]

lemma access_resolved {r : AbsolutePath} (h : resolved fs platform bundlePath path = some r)
    (mode : AccessMode) : access fs platform bundlePath path mode =
      if mode = 0 then
        (if target fs platform bundlePath path = none then refusal .enoent else granted)
      else if mode &&& validModeBits = 0 then granted else refusal .einval := by
  have htarget : target fs platform bundlePath path = fs.lookupNode r.text := by
    rw [target, h, Option.bind_some]
  rw [resolved] at h
  rw [access, h, htarget]
  dsimp only
  by_cases hzero : mode = 0
  · rw [if_pos hzero, if_pos (show mode = fOk from hzero), Fs.access]
    cases fs.lookupNode r.text with
    | none => rfl
    | some node => cases node <;> rfl
  · rw [if_neg hzero, if_neg (show ¬ mode = fOk from hzero)]
    by_cases hvalid : mode &&& validModeBits = 0
    · have hbit : ∀ bit, bit &&& validModeBits = bit → ¬ mode &&& bit ≠ 0 := by
        intro bit hbit
        rw [not_not, ← hbit, BitVec.and_comm bit, ← BitVec.and_assoc, hvalid]
        exact BitVec.zero_and
      rw [if_pos hvalid, if_neg (not_or.mpr ⟨not_not.mpr (and_not_eq_self_iff.mpr hvalid), hzero⟩),
        checkPermissions, if_neg fun hr => hbit rOk (by decide) hr.1,
        if_neg fun hw => hbit wOk (by decide) hw.1, if_neg fun hx => hbit xOk (by decide) hx.1]
    · rw [if_neg hvalid, if_pos (Or.inl fun heq => hvalid (and_not_eq_self_iff.mp heq))]

lemma refusal_ne_granted {e : AccessErrno} : refusal e ≠ granted := by
  rintro ⟨⟩

lemma agrees_of_unresolved (h : resolved fs platform bundlePath path = none)
    (hvalid : mode &&& ~~~validModeBits = 0) : AccessAgrees fs platform bundlePath path mode := by
  have htarget : target fs platform bundlePath path = none := by rw [target, h, Option.bind_none]
  refine ⟨fun _ => ?_, fun _ _ => ?_, fun hne => absurd hvalid hne, fun hg => ?_⟩
  · rw [access_unresolved h, htarget]
    exact iff_of_false refusal_ne_granted (by simp)
  · rw [access_unresolved h, if_pos htarget]
  · rw [access_unresolved h] at hg
    exact absurd hg refusal_ne_granted

lemma agrees_of_zero : AccessAgrees fs platform bundlePath path 0 := by
  have hvalid : (0 : AccessMode) &&& ~~~validModeBits = 0 := BitVec.zero_and
  cases h : resolved fs platform bundlePath path with
  | none => exact agrees_of_unresolved h hvalid
  | some r =>
    have haccess : access fs platform bundlePath path 0 =
        if target fs platform bundlePath path = none then refusal .enoent else granted := by
      rw [access_resolved h, if_pos rfl]
    refine ⟨fun _ => ?_, fun _ hne => ?_, fun hne => absurd hvalid hne, fun hg smaller hs => ?_⟩
    · rw [haccess]
      cases target fs platform bundlePath path with
      | none => exact iff_of_false refusal_ne_granted (by simp)
      | some node => exact iff_of_true rfl ⟨node, rfl, BitVec.zero_and⟩
    · rw [haccess] at hne ⊢
      by_cases hnone : target fs platform bundlePath path = none
      · rw [if_pos hnone, if_pos hnone]
      · exact absurd (if_neg hnone) hne
    · obtain rfl : smaller = 0 := hs.symm.trans BitVec.and_zero
      exact hg

lemma agrees_of_mixed {r : AbsolutePath} (h : resolved fs platform bundlePath path = some r)
    (hother : mode &&& ~~~validModeBits ≠ 0) (hvalid : mode &&& validModeBits ≠ 0) :
    AccessAgrees fs platform bundlePath path mode := by
  have haccess : access fs platform bundlePath path mode = refusal .einval := by
    rw [access_resolved h, if_neg, if_neg hvalid]
    rintro rfl
    exact hother BitVec.zero_and
  refine ⟨fun hne => absurd hne hother, fun hne => absurd hne hother, fun _ => haccess, fun hg => ?_⟩
  rw [haccess] at hg
  exact absurd hg refusal_ne_granted

/-- The answer is right for existence alone, for a path that does not resolve, and for modes that mix
valid bits with others. -/
theorem accessAgrees_iff (fs : Fs) (platform : Platform) (bundlePath : Text) (path : List UInt8)
    (mode : AccessMode) : AccessAgrees fs platform bundlePath path mode ↔
      mode = 0 ∨
      (resolved fs platform bundlePath path = none ∧ mode &&& ~~~validModeBits = 0) ∨
      (resolved fs platform bundlePath path ≠ none ∧ mode &&& ~~~validModeBits ≠ 0 ∧
        mode &&& validModeBits ≠ 0) := by
  constructor
  · intro hagrees
    by_cases hzero : mode = 0
    · exact Or.inl hzero
    · refine Or.inr ?_
      cases h : resolved fs platform bundlePath path with
      | none =>
        refine Or.inl ⟨rfl, ?_⟩
        by_contra hother
        have hinvalid := hagrees.invalid hother
        rw [access_unresolved h] at hinvalid
        cases hinvalid
      | some r =>
        have haccess := access_resolved h mode
        rw [if_neg hzero] at haccess
        by_cases hvalid : mode &&& validModeBits = 0
        · rw [if_pos hvalid] at haccess
          have hinvalid := hagrees.invalid fun hother => hzero (eq_zero_of_and hvalid hother)
          rw [haccess] at hinvalid
          cases hinvalid
        · rw [if_neg hvalid] at haccess
          refine Or.inr ⟨Option.some_ne_none r, fun hother => ?_, hvalid⟩
          have hrefused := hagrees.refuses hother (haccess ▸ refusal_ne_granted)
          rw [haccess] at hrefused
          split at hrefused <;> cases hrefused
  · rintro (rfl | ⟨hnone, hvalid⟩ | ⟨hsome, hother, hvalid⟩)
    · exact agrees_of_zero
    · exact agrees_of_unresolved hnone hvalid
    · obtain ⟨r, hr⟩ := Option.ne_none_iff_exists'.mp hsome
      exact agrees_of_mixed hr hother hvalid

def plainPlatform : Platform where
  toLowercase := id
  iteration _ names := names
  resource _ := []
  iteration_perm _ _ := List.Perm.refl _

def bareFs : Fs := ⟨.node none [], rootDirectory, none⟩

theorem not_accessAgrees : ¬ ∀ fs platform bundlePath path mode,
    AccessAgrees fs platform bundlePath path mode := by
  intro h
  have hgrants := ((h bareFs plainPlatform [] [ascii '/'] rOk).grants (by decide)).mpr
    ⟨.node none [], rfl, by decide⟩
  exact absurd hgrants (by decide)

end TouchHle.Filesystem
