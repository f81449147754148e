import Mathlib

namespace TouchHle.Font

def isArabic (c : ℕ) : Bool :=
  (0x0600 ≤ c && c ≤ 0x06FF) || (0x0750 ≤ c && c ≤ 0x077F) || (0x08A0 ≤ c && c ≤ 0x08FF) ||
    (0xFB50 ≤ c && c ≤ 0xFDFF) || (0xFE70 ≤ c && c ≤ 0xFEFF)

inductive Join
  | nonJoining
  | right
  | dual
  | causing
  | transparent
  deriving DecidableEq

def isTransparent (c : ℕ) : Bool :=
  (0x0610 ≤ c && c ≤ 0x061A) || (0x064B ≤ c && c ≤ 0x065F) || c == 0x0670 ||
    (0x06D6 ≤ c && c ≤ 0x06DC) || (0x06DF ≤ c && c ≤ 0x06E4) || c == 0x06E7 || c == 0x06E8 ||
    (0x06EA ≤ c && c ≤ 0x06ED)

def joinOf (c : ℕ) : Join :=
  if c = 0x0621 then .nonJoining
  else if 0x0622 ≤ c ∧ c ≤ 0x0625 then .right
  else if c = 0x0626 then .dual
  else if c = 0x0627 then .right
  else if c = 0x0628 then .dual
  else if c = 0x0629 then .right
  else if 0x062A ≤ c ∧ c ≤ 0x062E then .dual
  else if 0x062F ≤ c ∧ c ≤ 0x0632 then .right
  else if 0x0633 ≤ c ∧ c ≤ 0x063A then .dual
  else if c = 0x0640 then .causing
  else if 0x0641 ≤ c ∧ c ≤ 0x0647 then .dual
  else if c = 0x0648 then .right
  else if c = 0x0649 then .dual
  else if c = 0x064A then .dual
  else if isTransparent c then .transparent
  else if c = 0x200D then .causing
  else .nonJoining

def joiningType (c : Char) : Join := joinOf c.toNat

inductive Form
  | isolated
  | final
  | initial
  | medial
  deriving DecidableEq

structure Forms where
  iso : ℕ
  fin : ℕ
  ini : ℕ
  med : ℕ
  deriving DecidableEq

def formTable : List (ℕ × Forms) := [
  (0x0621, ⟨0xFE80, 0, 0, 0⟩),
  (0x0622, ⟨0xFE81, 0xFE82, 0, 0⟩),
  (0x0623, ⟨0xFE83, 0xFE84, 0, 0⟩),
  (0x0624, ⟨0xFE85, 0xFE86, 0, 0⟩),
  (0x0625, ⟨0xFE87, 0xFE88, 0, 0⟩),
  (0x0626, ⟨0xFE89, 0xFE8A, 0xFE8B, 0xFE8C⟩),
  (0x0627, ⟨0xFE8D, 0xFE8E, 0, 0⟩),
  (0x0628, ⟨0xFE8F, 0xFE90, 0xFE91, 0xFE92⟩),
  (0x0629, ⟨0xFE93, 0xFE94, 0, 0⟩),
  (0x062A, ⟨0xFE95, 0xFE96, 0xFE97, 0xFE98⟩),
  (0x062B, ⟨0xFE99, 0xFE9A, 0xFE9B, 0xFE9C⟩),
  (0x062C, ⟨0xFE9D, 0xFE9E, 0xFE9F, 0xFEA0⟩),
  (0x062D, ⟨0xFEA1, 0xFEA2, 0xFEA3, 0xFEA4⟩),
  (0x062E, ⟨0xFEA5, 0xFEA6, 0xFEA7, 0xFEA8⟩),
  (0x062F, ⟨0xFEA9, 0xFEAA, 0, 0⟩),
  (0x0630, ⟨0xFEAB, 0xFEAC, 0, 0⟩),
  (0x0631, ⟨0xFEAD, 0xFEAE, 0, 0⟩),
  (0x0632, ⟨0xFEAF, 0xFEB0, 0, 0⟩),
  (0x0633, ⟨0xFEB1, 0xFEB2, 0xFEB3, 0xFEB4⟩),
  (0x0634, ⟨0xFEB5, 0xFEB6, 0xFEB7, 0xFEB8⟩),
  (0x0635, ⟨0xFEB9, 0xFEBA, 0xFEBB, 0xFEBC⟩),
  (0x0636, ⟨0xFEBD, 0xFEBE, 0xFEBF, 0xFEC0⟩),
  (0x0637, ⟨0xFEC1, 0xFEC2, 0xFEC3, 0xFEC4⟩),
  (0x0638, ⟨0xFEC5, 0xFEC6, 0xFEC7, 0xFEC8⟩),
  (0x0639, ⟨0xFEC9, 0xFECA, 0xFECB, 0xFECC⟩),
  (0x063A, ⟨0xFECD, 0xFECE, 0xFECF, 0xFED0⟩),
  (0x0641, ⟨0xFED1, 0xFED2, 0xFED3, 0xFED4⟩),
  (0x0642, ⟨0xFED5, 0xFED6, 0xFED7, 0xFED8⟩),
  (0x0643, ⟨0xFED9, 0xFEDA, 0xFEDB, 0xFEDC⟩),
  (0x0644, ⟨0xFEDD, 0xFEDE, 0xFEDF, 0xFEE0⟩),
  (0x0645, ⟨0xFEE1, 0xFEE2, 0xFEE3, 0xFEE4⟩),
  (0x0646, ⟨0xFEE5, 0xFEE6, 0xFEE7, 0xFEE8⟩),
  (0x0647, ⟨0xFEE9, 0xFEEA, 0xFEEB, 0xFEEC⟩),
  (0x0648, ⟨0xFEED, 0xFEEE, 0, 0⟩),
  (0x0649, ⟨0xFEEF, 0xFEF0, 0, 0⟩),
  (0x064A, ⟨0xFEF1, 0xFEF2, 0xFEF3, 0xFEF4⟩)]

def presentationForms (c : Char) : Option Forms := formTable.lookup c.toNat

def charFromU32 (n : ℕ) : Option Char := if n.isValidChar then some (Char.ofNat n) else none

def pick (primary fallback : ℕ) : ℕ := if primary ≠ 0 then primary else fallback

def Forms.choose (forms : Forms) : Form → ℕ
  | .isolated => forms.iso
  | .final => pick forms.fin forms.iso
  | .initial => pick forms.ini forms.iso
  | .medial => pick forms.med (pick forms.fin forms.iso)

def toPresentationForm (c : Char) (form : Form) : Char :=
  match presentationForms c with
  | none => c
  | some forms => (charFromU32 (forms.choose form)).getD c

def ligatureTable : List (ℕ × (ℕ × ℕ)) := [
  (0x0622, (0xFEF5, 0xFEF6)),
  (0x0623, (0xFEF7, 0xFEF8)),
  (0x0625, (0xFEF9, 0xFEFA)),
  (0x0627, (0xFEFB, 0xFEFC))]

def lamAlefLigature (alef : Char) (joinsPrev : Bool) : Char :=
  match ligatureTable.lookup alef.toNat with
  | some (iso, fin) => Char.ofNat (if joinsPrev then fin else iso)
  | none => alef

def isLamAlefTarget (c : Char) : Bool := (ligatureTable.lookup c.toNat).isSome

def nearestBase (chars : List Char) : Option Join :=
  (chars.map joiningType).find? (· != .transparent)

def prevJoins (before : List Char) : Bool :=
  nearestBase before == some .dual || nearestBase before == some .causing

def nextJoins (after : List Char) : Bool :=
  nearestBase after == some .right || nearestBase after == some .dual ||
    nearestBase after == some .causing

def contextualForm (before : List Char) (c : Char) (after : List Char) : Form :=
  let cur := joiningType c
  let joinsPrev := (cur == .right || cur == .dual || cur == .causing) && prevJoins before
  let joinsNext := (cur == .dual || cur == .causing) && nextJoins after
  match joinsPrev, joinsNext with
  | true, true => .medial
  | true, false => .final
  | false, true => .initial
  | false, false => .isolated

def shapeChar (before : List Char) (c : Char) (after : List Char) : Char :=
  if (presentationForms c).isSome then toPresentationForm c (contextualForm before c after) else c

def isLamAlef (lam alef : Char) : Bool := lam.toNat == 0x0644 && isLamAlefTarget alef

def shapeUnits (before : List Char) : List Char → List (List Char × Char)
  | [] => []
  | [c] => [([c], shapeChar before c [])]
  | c :: d :: rest =>
    if isLamAlef c d then
      ([c, d], lamAlefLigature d (prevJoins before)) :: shapeUnits (d :: c :: before) rest
    else ([c], shapeChar before c (d :: rest)) :: shapeUnits (c :: before) (d :: rest)

def shape (chars : List Char) : List Char := (shapeUnits [] chars).map Prod.snd

inductive Dir
  | ltr
  | rtl
  | neutral
  deriving DecidableEq

def isRtlStrong (c : ℕ) : Bool :=
  (0x0590 ≤ c && c ≤ 0x05FF) || (0x0600 ≤ c && c ≤ 0x06FF) || (0x0750 ≤ c && c ≤ 0x077F) ||
    (0x08A0 ≤ c && c ≤ 0x08FF) || (0xFB1D ≤ c && c ≤ 0xFB4F) || (0xFB50 ≤ c && c ≤ 0xFDFF) ||
    (0xFE70 ≤ c && c ≤ 0xFEFF)

def isAsciiDigit (c : ℕ) : Bool := 0x30 ≤ c && c ≤ 0x39

def isArabicDigit (c : ℕ) : Bool := (0x0660 ≤ c && c ≤ 0x0669) || (0x06F0 ≤ c && c ≤ 0x06F9)

def isCombiningMark (c : Char) : Bool :=
  (0x0300 ≤ c.toNat && c.toNat ≤ 0x036F) || joiningType c == .transparent

structure Cluster where
  dir : Dir
  chars : List Char

section

-- The function of Rust's standard library.
variable (isAlphabetic : Char → Bool)

def directionClass (c : Char) : Dir :=
  if isRtlStrong c.toNat then .rtl
  else if isAlphabetic c || isAsciiDigit c.toNat || isArabicDigit c.toNat then .ltr
  else .neutral

def clustersFrom (last : Cluster) : List Char → List Cluster
  | [] => [last]
  | c :: cs =>
    if isCombiningMark c then clustersFrom { last with chars := last.chars ++ [c] } cs
    else last :: clustersFrom ⟨directionClass isAlphabetic c, [c]⟩ cs

def clusters : List Char → List Cluster
  | [] => []
  | c :: cs => clustersFrom isAlphabetic ⟨directionClass isAlphabetic c, [c]⟩ cs

def baseDirection (raw : List Dir) : Dir := (raw.find? (· != .neutral)).getD .ltr

/-- A neutral run takes the direction it is flanked by on both sides, or else the base direction.
`before` is the direction before the run that the list starts in, or the list itself. -/
def resolveFrom (base before : Dir) : List Dir → List Dir
  | [] => []
  | .neutral :: ds =>
    let after := (ds.find? (· != .neutral)).getD base
    (if before = after then before else base) :: resolveFrom base before ds
  | d :: ds => d :: resolveFrom base d ds

def level (base d : Dir) : ℕ := (if base = .rtl then 1 else 0) + if d = base then 0 else 1

def reverseRuns (level : ℕ) (run : List ℕ) : List ℕ → List ℕ → List ℕ
  | l :: levels, o :: order =>
    if level ≤ l then reverseRuns level (o :: run) levels order
    else run ++ o :: reverseRuns level [] levels order
  | _, _ => run

def reversePasses (levels : List ℕ) : ℕ → List ℕ → List ℕ
  | 0, order => order
  | level + 1, order => reversePasses levels level (reverseRuns (level + 1) [] levels order)

def resolveOrder (levels : List ℕ) : List ℕ :=
  match levels.max? with
  | none => List.range levels.length
  | some max => reversePasses levels max (List.range levels.length)

def resolvedDirections (shaped : List Char) : List Dir :=
  let raw := (clusters isAlphabetic shaped).map Cluster.dir
  resolveFrom (baseDirection raw) (baseDirection raw) raw

def visualOrder (shaped : List Char) : List ℕ :=
  let base := baseDirection ((clusters isAlphabetic shaped).map Cluster.dir)
  resolveOrder ((resolvedDirections isAlphabetic shaped).map (level base))

def reorderVisual (shaped : List Char) : List Char :=
  (visualOrder isAlphabetic shaped).flatMap fun idx =>
    (((clusters isAlphabetic shaped)[idx]?).map Cluster.chars).getD []

def shapeLineForDisplay (line : List Char) : List Char :=
  if line.any fun c => isArabic c.toNat then reorderVisual isAlphabetic (shape line) else line

end

end TouchHle.Font
