import TouchHle.Strings.CharacterSet

namespace TouchHle.Strings

open CharacterSetHostObject List CharacterSets

section

open Classical

abbrev AbstractSet := Bool × Set UInt16

abbrev AbstractSets := List AbstractSet

namespace AbstractSets

variable (s : AbstractSets)

noncomputable def alloc (a : AbstractSet) : Option (AbstractSets × CharacterSetReply) :=
  some (s ++ [a], .set s.length)

noncomputable def mutate (this : ℕ) (f : Set UInt16 → Set UInt16) :
    Option (AbstractSets × CharacterSetReply) :=
  (s[this]?).bind fun a => if a.1 then some (s.set this (true, f a.2), .done) else none

noncomputable def mutateWith (this other : ℕ) (f : Set UInt16 → Set UInt16 → Set UInt16) :
    Option (AbstractSets × CharacterSetReply) :=
  (s[other]?).bind fun b => s.mutate this fun a => f a b.2

def inRange (range : NSRange) : Set UInt16 :=
  {c | range.location ≤ c.toNat ∧ c.toNat < range.location + range.length}

noncomputable def ask (this other : ℕ) (p : Set UInt16 → Set UInt16 → Prop) :
    Option (AbstractSets × CharacterSetReply) :=
  (s[this]?).bind fun a => (s[other]?).map fun b => (s, .bool (decide (p a.2 b.2)))

noncomputable def step : CharacterSetCommand → Option (AbstractSets × CharacterSetReply)
  | .characterSetWithCharactersInString isMutable string => s.alloc (isMutable, {c | c ∈ string})
  | .characterSetWithRange isMutable range => s.alloc (isMutable, inRange range)
  | .addCharactersInString this string => s.mutate this (· ∪ {c | c ∈ string})
  | .removeCharactersInString this string => s.mutate this (· \ {c | c ∈ string})
  | .addCharactersInRange this range => s.mutate this (· ∪ inRange range)
  | .removeCharactersInRange this range => s.mutate this (· \ inRange range)
  | .unionWithCharacterSet this other => s.mutateWith this other (· ∪ ·)
  | .intersectWithCharacterSet this other => s.mutateWith this other (· ∩ ·)
  | .formUnionWithCharacterSet this other => s.mutateWith this other (· ∪ ·)
  | .formIntersectionWithCharacterSet this other => s.mutateWith this other (· ∩ ·)
  | .invert this => s.mutate this compl
  | .invertedSet this => (s[this]?).bind fun a => s.alloc (false, a.2ᶜ)
  | .copyWithZone this => (s[this]?).bind fun a => s.alloc (false, a.2)
  | .mutableCopyWithZone this => (s[this]?).bind fun a => s.alloc (true, a.2)
  | .characterIsMember this c => (s[this]?).map fun a => (s, .bool (decide (c ∈ a.2)))
  | .isSupersetOfSet this other => s.ask this other fun a b => b ⊆ a
  | .isEqual this other => s.ask this other fun a b => a = b

noncomputable def replies (s : AbstractSets) :
    List CharacterSetCommand → Option (List CharacterSetReply)
  | [] => some []
  | command :: commands => (s.step command).bind fun p =>
    (replies p.1 commands).map (p.2 :: ·)

end AbstractSets

end

namespace CharacterSetHostObject

variable {host other : CharacterSetHostObject} {chars : Finset UInt16} {c : UInt16}
  {range : NSRange}

def members (host : CharacterSetHostObject) : Set UInt16 :=
  {c | host.characterIsMember c = true}

lemma mem_members : c ∈ host.members ↔
    (host.inverted = false ∧ c ∈ host.set) ∨ (host.inverted = true ∧ c ∉ host.set) := by
  unfold members characterIsMember
  cases host.inverted <;> by_cases h : c ∈ host.set <;> simp [h]

lemma mem_charactersInRange : c ∈ charactersInRange range ↔ c ∈ AbstractSets.inRange range := by
  have hlt := c.toNat_lt
  simp only [charactersInRange, mem_toFinset, mem_map, mem_filter,
    mem_range'_1, decide_eq_true_eq, AbstractSets.inRange, Set.mem_ofPred_eq]
  constructor
  · rintro ⟨n, ⟨⟨hlo, hhi⟩, hsmall⟩, rfl⟩
    rw [UInt16.toNat_ofNat', Nat.mod_eq_of_lt hsmall]
    omega
  · rintro ⟨hlo, hhi⟩
    exact ⟨c.toNat, ⟨⟨hlo, by omega⟩, by omega⟩, UInt16.ofNat_toNat⟩

def Editable (host : CharacterSetHostObject) (chars : Finset UInt16) : Prop :=
  host.inverted = false ∨ chars = ∅

def Unitable (host other : CharacterSetHostObject) : Prop :=
  (host.inverted = false ∧ other.inverted = false) ∨
    (host.inverted = true ∧ other.inverted = false ∧ other.set = ∅) ∨
    (host.inverted = false ∧ other.inverted = true ∧ host.set = Finset.univ) ∨
    (host.inverted = true ∧ other.inverted = true ∧ host.set = other.set)

def Intersectable (host other : CharacterSetHostObject) : Prop :=
  (host.inverted = false ∧ other.inverted = false) ∨
    (host.inverted = true ∧ other.inverted = false ∧ other.set = Finset.univ) ∨
    (host.inverted = false ∧ other.inverted = true ∧ host.set = ∅) ∨
    (host.inverted = true ∧ other.inverted = true ∧ host.set = other.set)

lemma addCharacters_iff :
    (host.addCharacters chars).members = host.members ∪ ↑chars ↔ host.Editable chars := by
  unfold Editable
  rw [Set.ext_iff, Finset.eq_empty_iff_forall_notMem]
  simp only [mem_members, addCharacters, Set.mem_union, Finset.mem_coe, Finset.mem_union]
  cases host.inverted with
  | false => simp
  | true =>
    simp only [Bool.true_eq_false, false_and, true_and, false_or]
    refine forall_congr' fun c => ?_
    tauto

lemma removeCharacters_iff :
    (host.removeCharacters chars).members = host.members \ ↑chars ↔ host.Editable chars := by
  unfold Editable
  rw [Set.ext_iff, Finset.eq_empty_iff_forall_notMem]
  simp only [mem_members, removeCharacters, Set.mem_sdiff, Finset.mem_coe, Finset.mem_sdiff]
  cases host.inverted with
  | false => simp
  | true =>
    simp only [Bool.true_eq_false, false_and, true_and, false_or]
    refine forall_congr' fun c => ?_
    tauto

lemma unionWithCharacterSet_iff :
    (host.unionWithCharacterSet other).members = host.members ∪ other.members ↔
      host.Unitable other := by
  unfold Unitable
  rw [Set.ext_iff, Finset.eq_empty_iff_forall_notMem, Finset.eq_univ_iff_forall, Finset.ext_iff]
  simp only [mem_members, unionWithCharacterSet, addCharacters, Set.mem_union, Finset.mem_union]
  cases host.inverted with
  | false =>
    cases other.inverted with
    | false => simp
    | true =>
      simp only [Bool.true_eq_false, Bool.false_eq_true, false_and, and_false, true_and, false_or,
        or_false]
      refine forall_congr' fun c => ?_
      tauto
  | true =>
    cases other.inverted with
    | false =>
      simp only [Bool.true_eq_false, Bool.false_eq_true, false_and, and_false, true_and, false_or,
        or_false]
      refine forall_congr' fun c => ?_
      tauto
    | true =>
      simp only [Bool.true_eq_false, false_and, and_false, true_and, false_or]
      refine forall_congr' fun c => ?_
      tauto

lemma intersectWithCharacterSet_iff :
    (host.intersectWithCharacterSet other).members = host.members ∩ other.members ↔
      host.Intersectable other := by
  unfold Intersectable
  rw [Set.ext_iff, Finset.eq_empty_iff_forall_notMem, Finset.eq_univ_iff_forall, Finset.ext_iff]
  simp only [mem_members, intersectWithCharacterSet, Set.mem_inter_iff, Finset.mem_filter]
  cases host.inverted with
  | false =>
    cases other.inverted with
    | false => simp
    | true =>
      simp only [Bool.true_eq_false, Bool.false_eq_true, false_and, and_false, true_and, false_or,
        or_false]
      refine forall_congr' fun c => ?_
      tauto
  | true =>
    cases other.inverted with
    | false =>
      simp only [Bool.true_eq_false, Bool.false_eq_true, false_and, and_false, true_and, false_or,
        or_false]
      refine forall_congr' fun c => ?_
      tauto
    | true =>
      simp only [Bool.true_eq_false, false_and, and_false, true_and, false_or]
      refine forall_congr' fun c => ?_
      tauto

lemma members_invert : host.invert.members = host.membersᶜ := by
  ext c
  rw [Set.mem_compl_iff, mem_members, mem_members, invert]
  cases host.inverted <;> simp

lemma members_invertedSet : host.invertedSet.members = host.membersᶜ := members_invert

lemma members_eq_iff : host.members = other.members ↔
    (host.inverted = other.inverted ∧ host.set = other.set) ∨
      (host.inverted ≠ other.inverted ∧ host.set = other.setᶜ) := by
  rw [Set.ext_iff, Finset.ext_iff, Finset.ext_iff]
  simp only [mem_members, Finset.mem_compl]
  cases host.inverted with
  | false =>
    cases other.inverted with
    | false => simp
    | true => simp
  | true =>
    cases other.inverted with
    | false =>
      simp only [Bool.true_eq_false, Bool.false_eq_true, false_and, true_and, false_or, ne_eq,
        not_false_eq_true, or_false]
      refine forall_congr' fun c => ?_
      tauto
    | true =>
      simp only [Bool.true_eq_false, false_and, true_and, false_or, ne_eq, not_true_eq_false,
        or_false]
      refine forall_congr' fun c => ?_
      tauto

lemma isSupersetOfSet_iff : (host.isSupersetOfSet other = true ↔ other.members ⊆ host.members) ↔
    other.inverted = false ∨ ¬ other.members ⊆ host.members := by
  unfold isSupersetOfSet
  cases h : other.inverted with
  | false =>
    simp only [Bool.false_eq_true, if_false, decide_eq_true_eq, true_or, iff_true]
    refine forall_congr' fun c => ?_
    rw [mem_members, h]
    simp [members]
  | true => simp

end CharacterSetHostObject

namespace CharacterSets

variable {s : CharacterSets} {this other i j : ℕ} {command : CharacterSetCommand}
  {f : CharacterSetHostObject → CharacterSetHostObject} {F : Set UInt16 → Set UInt16}

def seen (s : CharacterSets) (i : ℕ) : AbstractSet := ((s.heap i).isMutable, (s.heap i).members)

def view (s : CharacterSets) : AbstractSets := s.references.map s.seen

def Valid (s : CharacterSets) : Prop := ∀ i ∈ s.references, i < s.next

def Alone (s : CharacterSets) (this : ℕ) : Prop :=
  ∀ i, s.references[this]? = some i → ∀ other, s.references[other]? = some i → other = this

def Receives (s : CharacterSets) (this : ℕ) (p : CharacterSetHostObject → Prop) : Prop :=
  ∀ i, s.references[this]? = some i → p (s.heap i)

def WellServed (s : CharacterSets) : CharacterSetCommand → Prop
  | .addCharactersInString this string =>
    s.Alone this ∧ s.Receives this (·.Editable string.toFinset)
  | .removeCharactersInString this string =>
    s.Alone this ∧ s.Receives this (·.Editable string.toFinset)
  | .addCharactersInRange this range =>
    s.Alone this ∧ s.Receives this (·.Editable (charactersInRange range))
  | .removeCharactersInRange this range =>
    s.Alone this ∧ s.Receives this (·.Editable (charactersInRange range))
  | .unionWithCharacterSet this other =>
    s.Alone this ∧ s.Receives this fun a => s.Receives other fun b => a.Unitable b
  | .formUnionWithCharacterSet this other =>
    s.Alone this ∧ s.Receives this fun a => s.Receives other fun b => a.Unitable b
  | .intersectWithCharacterSet this other =>
    s.Alone this ∧ s.Receives this fun a => s.Receives other fun b => a.Intersectable b
  | .formIntersectionWithCharacterSet this other =>
    s.Alone this ∧ s.Receives this fun a => s.Receives other fun b => a.Intersectable b
  | .invert this => s.Alone this
  | .isSupersetOfSet this other =>
    s.Receives this fun a => s.Receives other fun b =>
      a.isMutable = false ∧ (b.inverted = false ∨ ¬ b.members ⊆ a.members)
  | .isEqual this other =>
    s.references[this]? = s.references[other]? ∨
      s.Receives this fun a => s.Receives other fun b =>
        (a.isMutable = true → a.members ≠ b.members) ∧
          (a.isMutable = false → a.inverted = b.inverted ∨ a.set ≠ b.setᶜ)
  | _ => True

lemma view_getElem? (n : ℕ) : s.view[n]? = (s.references[n]?).map s.seen :=
  getElem?_map

lemma length_view : s.view.length = s.references.length := length_map _

lemma seen_of_lt (hi : i < s.next) (host : CharacterSetHostObject) :
    (s.alloc host).1.seen i = s.seen i := by
  unfold seen alloc
  dsimp only
  rw [Function.update_of_ne (by omega)]

lemma view_alloc (hvalid : s.Valid) (host : CharacterSetHostObject) :
    (s.alloc host).1.view = s.view ++ [(host.isMutable, host.members)] := by
  have hnew : (s.alloc host).1.seen s.next = (host.isMutable, host.members) := by
    unfold seen alloc
    dsimp only
    rw [Function.update_self]
  have hold : s.references.map (s.alloc host).1.seen = s.view :=
    map_congr_left fun i hi => seen_of_lt (hvalid i hi) host
  change (s.references ++ [s.next]).map (s.alloc host).1.seen = _
  rw [map_append, hold, map_singleton, hnew]

lemma alloc_eq (hvalid : s.Valid) (host : CharacterSetHostObject) :
    some (Prod.map view id (s.alloc host)) = s.view.alloc (host.isMutable, host.members) := by
  unfold AbstractSets.alloc
  rw [← view_alloc hvalid, length_view]
  rfl

lemma retain_eq (i : ℕ) : some (Prod.map view id (s.retain i)) = s.view.alloc (s.seen i) := by
  unfold AbstractSets.alloc
  rw [length_view]
  change some ((s.references ++ [i]).map s.seen, CharacterSetReply.set s.references.length) = _
  rw [map_append]
  rfl

lemma view_mutate (halone : s.Alone this) (hi : s.references[this]? = some i)
    (host : CharacterSetHostObject) :
    ({ s with heap := Function.update s.heap i host } : CharacterSets).view =
      s.view.set this (host.isMutable, host.members) := by
  refine ext_getElem? fun n => ?_
  rw [view_getElem?, getElem?_set, view_getElem?]
  by_cases hn : this = n
  · subst hn
    obtain ⟨hlt, -⟩ := List.getElem?_eq_some_iff.mp hi
    rw [if_pos rfl, if_pos (by rw [length_view]; exact hlt), hi, Option.map_some]
    unfold seen
    dsimp only
    rw [Function.update_self]
  · rw [if_neg hn]
    cases hn' : s.references[n]? with
    | none => rfl
    | some j =>
      have hij : j ≠ i := by
        rintro rfl
        exact hn (halone _ hi n hn').symm
      rw [Option.map_some, Option.map_some, seen, seen]
      dsimp only
      rw [Function.update_of_ne hij]

lemma mutate_eq (halone : s.Alone this) (hf : ∀ host, (f host).isMutable = host.isMutable)
    (hmembers : s.Receives this fun host => (f host).members = F host.members) :
    (s.mutate this f).map (Prod.map view id) = s.view.mutate this F := by
  unfold mutate AbstractSets.mutate
  rw [view_getElem?]
  cases hi : s.references[this]? with
  | none => rfl
  | some i =>
    rw [Option.bind_some, Option.map_some, Option.bind_some]
    change _ = if (s.heap i).isMutable then _ else _
    split_ifs with hmutable
    · rw [Option.map_some, Prod.map, view_mutate halone hi, hf, hmutable, hmembers i hi]
      rfl
    · rfl

lemma mutateWith_eq {g : CharacterSetHostObject → CharacterSetHostObject → CharacterSetHostObject}
    {G : Set UInt16 → Set UInt16 → Set UInt16} (halone : s.Alone this)
    (hg : ∀ host host', (g host host').isMutable = host.isMutable)
    (hmembers : s.Receives this fun host => s.Receives other fun host' =>
      (g host host').members = G host.members host'.members) :
    (s.mutateWith this other g).map (Prod.map view id) = s.view.mutateWith this other G := by
  unfold mutateWith AbstractSets.mutateWith
  rw [view_getElem?]
  cases hj : s.references[other]? with
  | none => rfl
  | some j =>
    rw [Option.bind_some, Option.map_some, Option.bind_some]
    exact mutate_eq halone (fun host => hg host _) fun i hi => hmembers i hi j hj

lemma Valid.alloc (hvalid : s.Valid) (host : CharacterSetHostObject) : (s.alloc host).1.Valid := by
  intro i hi
  have hi : i ∈ s.references ++ [s.next] := hi
  rcases mem_append.mp hi with hi | hi
  · exact Nat.lt_succ_of_lt (hvalid i hi)
  · exact mem_singleton.mp hi ▸ Nat.lt_succ_self s.next

lemma Valid.retain (hvalid : s.Valid) (hi : s.references[this]? = some i) :
    (s.retain i).1.Valid := by
  intro j hj
  have hj : j ∈ s.references ++ [i] := hj
  rcases mem_append.mp hj with hj | hj
  · exact hvalid j hj
  · exact mem_singleton.mp hj ▸ hvalid i (mem_of_getElem? hi)

lemma mutate_references {p : CharacterSets × CharacterSetReply} (h : s.mutate this f = some p) :
    p.1.references = s.references ∧ p.1.next = s.next := by
  obtain ⟨i, -, h⟩ := Option.bind_eq_some_iff.mp h
  split_ifs at h
  obtain rfl := Option.some.inj h
  exact ⟨rfl, rfl⟩

lemma Valid.mutate (hvalid : s.Valid) {p : CharacterSets × CharacterSetReply}
    (h : s.mutate this f = some p) : p.1.Valid := by
  obtain ⟨hreferences, hnext⟩ := mutate_references h
  intro i hi
  rw [hnext]
  exact hvalid i (hreferences ▸ hi)

lemma Valid.mutateWith (hvalid : s.Valid) {p : CharacterSets × CharacterSetReply}
    {g : CharacterSetHostObject → CharacterSetHostObject → CharacterSetHostObject}
    (h : s.mutateWith this other g = some p) : p.1.Valid := by
  obtain ⟨j, -, h⟩ := Option.bind_eq_some_iff.mp h
  exact hvalid.mutate h

lemma Valid.step (hvalid : s.Valid) {p : CharacterSets × CharacterSetReply}
    (h : s.step command = some p) : p.1.Valid := by
  cases command with
  | characterSetWithCharactersInString isMutable string =>
    obtain rfl := Option.some.inj h
    exact hvalid.alloc _
  | characterSetWithRange isMutable range =>
    obtain rfl := Option.some.inj h
    exact hvalid.alloc _
  | addCharactersInString this string =>
    have h : s.mutate this (·.addCharactersInString string) = some p := h
    exact hvalid.mutate h
  | removeCharactersInString this string =>
    have h : s.mutate this (·.removeCharactersInString string) = some p := h
    exact hvalid.mutate h
  | addCharactersInRange this range =>
    have h : s.mutate this (·.addCharactersInRange range) = some p := h
    exact hvalid.mutate h
  | removeCharactersInRange this range =>
    have h : s.mutate this (·.removeCharactersInRange range) = some p := h
    exact hvalid.mutate h
  | unionWithCharacterSet this other => exact hvalid.mutateWith h
  | intersectWithCharacterSet this other => exact hvalid.mutateWith h
  | formUnionWithCharacterSet this other => exact hvalid.mutateWith h
  | formIntersectionWithCharacterSet this other => exact hvalid.mutateWith h
  | invert this => exact hvalid.mutate h
  | invertedSet this =>
    obtain ⟨i, -, rfl⟩ := Option.map_eq_some_iff.mp h
    exact hvalid.alloc _
  | copyWithZone this =>
    obtain ⟨i, hi, rfl⟩ := Option.map_eq_some_iff.mp h
    unfold copyWithZone
    split_ifs
    · exact hvalid.alloc _
    · exact hvalid.retain hi
  | mutableCopyWithZone this =>
    obtain ⟨i, hi, rfl⟩ := Option.map_eq_some_iff.mp h
    unfold mutableCopyWithZone
    split_ifs
    · exact hvalid.retain hi
    · exact hvalid.alloc _
  | characterIsMember this c =>
    obtain ⟨i, -, rfl⟩ := Option.map_eq_some_iff.mp h
    exact hvalid
  | isSupersetOfSet this other =>
    obtain ⟨i, -, h⟩ := Option.bind_eq_some_iff.mp h
    obtain ⟨j, -, h⟩ := Option.bind_eq_some_iff.mp h
    split_ifs at h
    obtain rfl := Option.some.inj h
    exact hvalid
  | isEqual this other =>
    obtain ⟨i, -, h⟩ := Option.bind_eq_some_iff.mp h
    obtain ⟨j, -, rfl⟩ := Option.map_eq_some_iff.mp h
    exact hvalid

lemma coe_toFinset (string : List UInt16) :
    (↑string.toFinset : Set UInt16) = {c | c ∈ string} := by
  ext c
  simp

lemma coe_charactersInRange (range : NSRange) :
    (↑(charactersInRange range) : Set UInt16) = AbstractSets.inRange range := by
  ext c
  exact mem_charactersInRange

lemma isEqual_eq (h : i = j ∨ ((s.heap i).isMutable = true →
      (s.heap i).members ≠ (s.heap j).members) ∧
      ((s.heap i).isMutable = false → (s.heap i).inverted = (s.heap j).inverted ∨
        (s.heap i).set ≠ (s.heap j).setᶜ)) :
    s.isEqual i j = true ↔ (s.heap i).members = (s.heap j).members := by
  unfold isEqual
  by_cases hij : i = j
  · rw [hij]
    simp
  · obtain ⟨hmutable, himmutable⟩ := h.resolve_left hij
    cases hm : (s.heap i).isMutable with
    | true => simpa [hij] using hmutable hm
    | false =>
      have hbits : (s.heap i).inverted = (s.heap j).inverted ∨ (s.heap i).set ≠ (s.heap j).setᶜ :=
        himmutable hm
      rw [members_eq_iff]
      simp only [Bool.false_eq_true, if_false, Bool.or_eq_true, beq_iff_eq, hij, false_or,
        Bool.and_eq_true]
      tauto

open Classical in
theorem step_eq (hvalid : s.Valid) (h : s.WellServed command) :
    (s.step command).map (Prod.map view id) = s.view.step command := by
  cases command with
  | characterSetWithCharactersInString isMutable string =>
    refine (alloc_eq hvalid _).trans ?_
    have hmembers : (⟨isMutable, string.toFinset, false⟩ : CharacterSetHostObject).members =
        {c | c ∈ string} := by
      ext c
      simp [mem_members]
    rw [hmembers]
    rfl
  | characterSetWithRange isMutable range =>
    refine (alloc_eq hvalid _).trans ?_
    have hmembers : (⟨isMutable, charactersInRange range, false⟩ : CharacterSetHostObject).members =
        AbstractSets.inRange range := by
      ext c
      simp [mem_members, mem_charactersInRange]
    rw [hmembers]
    rfl
  | addCharactersInString this string =>
    simp only [step, AbstractSets.step]
    refine mutate_eq h.1 (fun _ => rfl) fun i hi => ?_
    refine (addCharacters_iff.mpr (h.2 i hi)).trans ?_
    rw [coe_toFinset]
  | removeCharactersInString this string =>
    simp only [step, AbstractSets.step]
    refine mutate_eq h.1 (fun _ => rfl) fun i hi => ?_
    refine (removeCharacters_iff.mpr (h.2 i hi)).trans ?_
    rw [coe_toFinset]
  | addCharactersInRange this range =>
    simp only [step, AbstractSets.step]
    refine mutate_eq h.1 (fun _ => rfl) fun i hi => ?_
    refine (addCharacters_iff.mpr (h.2 i hi)).trans ?_
    rw [coe_charactersInRange]
  | removeCharactersInRange this range =>
    simp only [step, AbstractSets.step]
    refine mutate_eq h.1 (fun _ => rfl) fun i hi => ?_
    refine (removeCharacters_iff.mpr (h.2 i hi)).trans ?_
    rw [coe_charactersInRange]
  | unionWithCharacterSet this other =>
    exact mutateWith_eq h.1 (fun _ _ => rfl) fun i hi j hj =>
      unionWithCharacterSet_iff.mpr (h.2 i hi j hj)
  | formUnionWithCharacterSet this other =>
    exact mutateWith_eq h.1 (fun _ _ => rfl) fun i hi j hj =>
      unionWithCharacterSet_iff.mpr (h.2 i hi j hj)
  | intersectWithCharacterSet this other =>
    exact mutateWith_eq h.1 (fun _ _ => rfl) fun i hi j hj =>
      intersectWithCharacterSet_iff.mpr (h.2 i hi j hj)
  | formIntersectionWithCharacterSet this other =>
    exact mutateWith_eq h.1 (fun _ _ => rfl) fun i hi j hj =>
      intersectWithCharacterSet_iff.mpr (h.2 i hi j hj)
  | invert this => exact mutate_eq h (fun _ => rfl) fun i _ => members_invert
  | invertedSet this =>
    simp only [step, AbstractSets.step, view_getElem?]
    cases hi : s.references[this]? with
    | none => rfl
    | some i =>
      refine (alloc_eq hvalid _).trans ?_
      rw [members_invertedSet]
      rfl
  | copyWithZone this =>
    simp only [step, AbstractSets.step, view_getElem?]
    cases hi : s.references[this]? with
    | none => rfl
    | some i =>
      rw [Option.map_some, Option.map_some, Option.map_some, Option.bind_some,
        copyWithZone]
      split_ifs with hm
      · exact alloc_eq hvalid _
      · rw [retain_eq, seen, Bool.eq_false_of_not_eq_true hm]
  | mutableCopyWithZone this =>
    simp only [step, AbstractSets.step, view_getElem?]
    cases hi : s.references[this]? with
    | none => rfl
    | some i =>
      rw [Option.map_some, Option.map_some, Option.map_some, Option.bind_some,
        mutableCopyWithZone]
      split_ifs with hm
      · rw [retain_eq, seen, hm]
      · exact alloc_eq hvalid _
  | characterIsMember this c =>
    simp only [step, AbstractSets.step, view_getElem?]
    cases hi : s.references[this]? with
    | none => rfl
    | some i =>
      have hmem : (s.heap i).characterIsMember c = decide (c ∈ (s.heap i).members) := by
        rw [Bool.eq_iff_iff, decide_eq_true_iff]
        rfl
      rw [Option.map_some, Option.map_some, Option.map_some, Option.map_some, hmem]
      rfl
  | isSupersetOfSet this other =>
    simp only [step, AbstractSets.step, AbstractSets.ask, view_getElem?]
    cases hi : s.references[this]? with
    | none => rfl
    | some i =>
      cases hj : s.references[other]? with
      | none => rfl
      | some j =>
        obtain ⟨himmutable, hserved⟩ := h i hi j hj
        have hanswer : (s.heap i).isSupersetOfSet (s.heap j) =
            decide ((s.heap j).members ⊆ (s.heap i).members) := by
          rw [Bool.eq_iff_iff, decide_eq_true_iff]
          exact isSupersetOfSet_iff.mpr hserved
        simp only [Option.bind_some, Option.map_some, himmutable, Bool.false_eq_true, if_false,
          hanswer]
        rfl
  | isEqual this other =>
    simp only [step, AbstractSets.step, AbstractSets.ask, view_getElem?]
    cases hi : s.references[this]? with
    | none => rfl
    | some i =>
      cases hj : s.references[other]? with
      | none => rfl
      | some j =>
        have hanswer : s.isEqual i j = decide ((s.heap i).members = (s.heap j).members) := by
          rw [Bool.eq_iff_iff, decide_eq_true_iff]
          refine isEqual_eq (h.imp (fun h => ?_) fun h => h i hi j hj)
          rw [hi, hj] at h
          exact Option.some.inj h
        simp only [Option.bind_some, Option.map_some, hanswer]
        rfl

def ServedRun : CharacterSets → List CharacterSetCommand → Prop
  | _, [] => True
  | s, command :: commands =>
    s.WellServed command ∧ ∀ p, s.step command = some p → ServedRun p.1 commands

lemma replies_eq {commands : List CharacterSetCommand} (hvalid : s.Valid)
    (h : s.ServedRun commands) : s.replies commands = s.view.replies commands := by
  induction commands generalizing s with
  | nil => rfl
  | cons command commands ih =>
    obtain ⟨hserved, hrest⟩ := h
    rw [replies, AbstractSets.replies, ← step_eq hvalid hserved]
    cases hp : s.step command with
    | none => rfl
    | some p =>
      rw [Option.bind_some, Option.map_some, Option.bind_some, ih (hvalid.step hp) (hrest p hp)]
      rfl

/-- The replies to a run of messages that are well served are those of sets. -/
theorem characterSets_are_sets (commands : List CharacterSetCommand)
    (h : empty.ServedRun commands) : empty.replies commands = AbstractSets.replies [] commands :=
  replies_eq (fun _ hi => absurd hi List.not_mem_nil) h

lemma alone_of_nodup (h : s.references.Nodup) (this : ℕ) : s.Alone this := by
  intro i hi other hother
  obtain ⟨hlt, -⟩ := List.getElem?_eq_some_iff.mp hother
  exact (getElem?_inj hlt h).mp (hother.trans hi.symm)

def invertedCopy : List CharacterSetCommand :=
  [.characterSetWithCharactersInString true [97], .addCharactersInString 0 [98], .invert 0,
    .copyWithZone 0, .characterIsMember 1 98]

lemma servedRun_cons {p : CharacterSets × CharacterSetReply} {commands : List CharacterSetCommand}
    (h : s.WellServed command) (hp : s.step command = some p) (hrest : p.1.ServedRun commands) :
    s.ServedRun (command :: commands) := by
  refine ⟨h, fun q hq => ?_⟩
  rw [hp] at hq
  obtain rfl := Option.some.inj hq
  exact hrest

lemma invertedCopy_served : empty.ServedRun invertedCopy := by
  refine servedRun_cons trivial rfl (servedRun_cons ⟨alone_of_nodup (by decide) 0, ?_⟩ rfl
    (servedRun_cons (alone_of_nodup (by decide) 0) rfl (servedRun_cons trivial rfl
      (servedRun_cons trivial rfl trivial))))
  intro i hi
  obtain rfl : 0 = i := Option.some.inj hi
  exact .inl rfl

theorem invertedCopy_is_set : empty.ServedRun invertedCopy ∧
    empty.replies invertedCopy = AbstractSets.replies [] invertedCopy :=
  ⟨invertedCopy_served, characterSets_are_sets _ invertedCopy_served⟩

def addToAll : List CharacterSetCommand :=
  [.characterSetWithCharactersInString true [], .invert 0, .addCharactersInString 0 [97],
    .characterIsMember 0 97]

theorem characterSets_are_not_sets :
    ¬ ∀ commands, empty.replies commands = AbstractSets.replies [] commands := by
  intro h
  have hcode : empty.replies addToAll = some [.set 0, .done, .done, .bool false] := rfl
  have hsets : AbstractSets.replies [] addToAll = some [.set 0, .done, .done, .bool true] := by
    simp [addToAll, AbstractSets.replies, AbstractSets.step, AbstractSets.alloc,
      AbstractSets.mutate]
  have hreplies := (hcode.symm.trans (h addToAll)).trans hsets
  revert hreplies
  decide

end CharacterSets

end TouchHle.Strings
