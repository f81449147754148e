import TouchHle.Foundation.JsonEncoding

namespace TouchHle.Foundation.JsonWriter

open Lib JsonParser List Except Option HostObject

variable {F : Type} {fl : Floats F} {g : Objects F} {id : Id} {t : List Char}

lemma mapM_eq_ok {ε α β : Type} {f : α → Except ε β} {l : List α} {bs : List β} :
    l.mapM f = .ok bs ↔ List.Forall₂ (fun a b => f a = .ok b) l bs := by
  induction l generalizing bs with
  | nil =>
    rw [mapM_nil, List.forall₂_nil_left_iff]
    exact ⟨fun h => (ok.inj h).symm, fun h => h ▸ rfl⟩
  | cons a l ih =>
    rw [mapM_cons, bind_eq_ok, List.forall₂_cons_left_iff]
    constructor
    · rintro ⟨b, hb, h⟩
      obtain ⟨bs', hbs, h⟩ := bind_eq_ok.mp h
      exact ⟨b, bs', hb, ih.mp hbs, (ok.inj h).symm⟩
    · rintro ⟨b, bs', hb, hbs, rfl⟩
      exact ⟨b, hb, bind_eq_ok.mpr ⟨bs', ih.mpr hbs, rfl⟩⟩

lemma exists_forall₂ {α β : Type} {R : α → β → Prop} {l : List α} (h : ∀ a ∈ l, ∃ b, R a b) :
    ∃ bs, List.Forall₂ R l bs := by
  induction l with
  | nil => exact ⟨[], .nil⟩
  | cons a l ih =>
    obtain ⟨b, hb⟩ := h a mem_cons_self
    obtain ⟨bs, hbs⟩ := ih fun a ha => h a (mem_cons_of_mem _ ha)
    exact ⟨b :: bs, .cons hb hbs⟩

lemma exists_both {α β γ : Type} {R : α → β → Prop} {Q : β → γ → Prop} {P : α → γ → Prop}
    {l : List α} {bs : List β} (h : List.Forall₂ R l bs)
    (hR : ∀ a ∈ l, ∀ b, R a b → ∃ c, Q b c ∧ P a c) :
    ∃ cs, List.Forall₂ Q bs cs ∧ List.Forall₂ P l cs := by
  induction h with
  | nil => exact ⟨[], .nil, .nil⟩
  | @cons a b l bs hab _ ih =>
    obtain ⟨c, hQ, hP⟩ := hR a mem_cons_self b hab
    obtain ⟨cs, hQs, hPs⟩ := ih fun a ha => hR a (mem_cons_of_mem _ ha)
    exact ⟨c :: cs, .cons hQ hQs, .cons hP hPs⟩

lemma exists_right {α β : Type} {R : α → β → Prop} {l : List α} {bs : List β}
    (h : List.Forall₂ R l bs) : ∀ a ∈ l, ∃ b ∈ bs, R a b := by
  induction h with
  | nil => exact fun a ha => (by cases ha)
  | cons hab _ ih =>
    intro a ha
    obtain rfl | ha := mem_cons.mp ha
    · exact ⟨_, mem_cons_self, hab⟩
    · obtain ⟨b, hb, hab⟩ := ih a ha
      exact ⟨b, mem_cons_of_mem _ hb, hab⟩

lemma exists_left {α β : Type} {R : α → β → Prop} {l : List α} {bs : List β}
    (h : List.Forall₂ R l bs) : ∀ b ∈ bs, ∃ a ∈ l, R a b :=
  exists_right h.flip

lemma forall₂_of_both {α β : Type} {P R S : α → β → Prop} {l : List α} {bs : List β}
    (h : List.Forall₂ P l bs) (h' : List.Forall₂ R l bs) (hS : ∀ a b, P a b → R a b → S a b) :
    List.Forall₂ S l bs := by
  induction h with
  | nil => exact .nil
  | cons hP _ ih =>
    cases h' with
    | cons hR hRs => exact .cons (hS _ _ hP hR) (ih hRs)

lemma spells_separated {N : Type} {read : Numeral → Option N} {line tail : List Char}
    (hline : Blank line) (htail : Blank tail) {vs : List (Json N)} {ts : List (List Char)}
    (h : List.Forall₂ (fun t v => Spells read (.value v) t) ts vs) (hne : ts ≠ []) :
    Spells read (.elements vs) (separated line ts ++ tail) := by
  induction h with
  | nil => exact absurd rfl hne
  | @cons t v ts vs ht hts ih =>
    cases hts with
    | nil => exact .element (.padded hline ht htail)
    | cons ht' hts' =>
      rw [separated, append_assoc, cons_append]
      · have hnil : Blank [] := fun _ h => (by cases h)
        have hpadded := Spells.padded hline ht hnil
        rw [append_nil] at hpadded
        exact .elements hpadded (ih (cons_ne_nil _ _))
      · rintro ⟨⟩

def EntryText {N : Type} (read : Numeral → Option N) (space : List Char) (t : List Char)
    (e : List Char × Json N) : Prop :=
  ∃ u, Spells read (.value e.2) u ∧ t = encodeString e.1 ++ ':' :: space ++ u

lemma spells_entries {N : Type} {read : Numeral → Option N} {line space tail : List Char}
    (hline : Blank line) (hspace : Blank space) (htail : Blank tail)
    {es : List (List Char × Json N)} {ts : List (List Char)}
    (h : List.Forall₂ (EntryText read space) ts es) (hne : ts ≠ []) :
    Spells read (.members es) (separated line ts ++ tail) := by
  have hnil : Blank [] := fun _ h => (by cases h)
  induction h with
  | nil => exact absurd rfl hne
  | @cons t e ts es ht hts ih =>
    obtain ⟨u, hu, rfl⟩ := ht
    obtain ⟨k, v⟩ := e
    cases hts with
    | nil =>
      have hmember := Spells.member hline (items_encode k) hnil (.padded hspace hu htail)
      convert hmember using 1
      simp [separated, encodeString]
    | cons ht' hts' =>
      have hmembers := Spells.members hline (items_encode k) hnil (.padded hspace hu hnil)
        (ih (cons_ne_nil _ _))
      convert hmembers using 1
      simp [separated, encodeString]

lemma setObject_new {α : Type} {es : List (List Char × α)} {k : List Char} {v : α}
    (h : ∀ e ∈ es, e.1 ≠ k) : setObject es k v = es ++ [(k, v)] := by
  induction es with
  | nil => rfl
  | cons e es ih =>
    obtain ⟨k', v'⟩ := e
    rw [setObject, if_neg (h _ mem_cons_self), ih fun e he => h e (mem_cons_of_mem _ he)]
    rfl

lemma foldl_setObject {α : Type} {es acc : List (List Char × α)}
    (h : (acc ++ es).Pairwise fun e f => e.1 ≠ f.1) :
    es.foldl (fun d e => setObject d e.1 e.2) acc = acc ++ es := by
  induction es generalizing acc with
  | nil => rw [append_nil]; rfl
  | cons e es ih =>
    have hnew : ∀ f ∈ acc, f.1 ≠ e.1 := fun f hf =>
      (pairwise_append.mp h).2.2 f hf e mem_cons_self
    rw [foldl_cons, setObject_new hnew]
    have happend : acc ++ [(e.1, e.2)] ++ es = acc ++ e :: es := by simp
    rw [ih (by rw [happend]; exact h), happend]

def Child (g : Objects F) (x y : Id) : Prop :=
  (∃ items, g.host x = .array items ∧ y ∈ items) ∨
    ∃ pairs, g.host x = .dictionary pairs ∧ ∃ p ∈ pairs, y = p.1 ∨ y = p.2

def Below (g : Objects F) (P : Id → Prop) (id : Id) : Prop :=
  ∀ x, Relation.ReflTransGen (Child g) id x → P x

lemma below_iff {P : Id → Prop} : Below g P id ↔ P id ∧ ∀ y, Child g id y → Below g P y := by
  constructor
  · exact fun h => ⟨h id .refl, fun y hy x hx => h x (.head hy hx)⟩
  · rintro ⟨hid, h⟩ x hx
    obtain rfl | ⟨y, hy, hyx⟩ := Relation.ReflTransGen.cases_head hx
    · exact hid
    · exact h y hy x hyx

def FiniteNumber (fl : Floats F) (g : Objects F) (x : Id) : Prop :=
  ∀ n, g.host x = .number n → n.IsFinite fl

structure Writable (fl : Floats F) (g : Objects F) (x : Id) : Prop where
  string : ∀ s, g.host x = .string s → s.toUtf8 ≠ none
  number : ∀ n, g.host x = .number n → ¬ n.IsNegativeZero fl

def Same (fl : Floats F) (g : Objects F) : ℕ → Id → Json (NSNumber F) → Prop
  | 0, _, _ => False
  | depth + 1, id, j =>
    match g.host id with
    | .null => j = .null
    | .number n => SameNumber fl n j
    | .string s => ∃ cs, j = .string cs ∧ s.toUtf8 = some cs
    | .array items => ∃ vs, j = .array vs ∧ List.Forall₂ (Same fl g depth) items vs
    | .dictionary pairs => ∃ es, j = .dictionary es ∧
        (∀ p ∈ pairs, ∃ e ∈ es, (g.host p.1).text = some e.1 ∧ Same fl g depth p.2 e.2) ∧
        ∀ e ∈ es, ∃ p ∈ pairs, (g.host p.1).text = some e.1 ∧ Same fl g depth p.2 e.2
    | .other => False

lemma host_ne (h : (g.host id).IsString) : id ≠ 0 := by
  rintro rfl
  rw [g.nil] at h
  exact h

lemma blank_newLine (pretty : Bool) (depth : ℕ) : Blank (newLine pretty depth) := by
  intro c hc
  cases pretty with
  | false => cases hc
  | true =>
    obtain rfl | hc := mem_cons.mp hc
    · decide
    · obtain rfl := eq_of_mem_replicate hc
      decide

lemma encode_ok {n : ℕ} (hvalid : isValidJsonSubtree g n id = some true)
    (hwritable : Below g (Writable fl g) id) (pretty : Bool) (depth : ℕ) :
    ∃ t, encodeValue fl g pretty n depth id = .ok t := by
  induction n generalizing id depth with
  | zero => cases hvalid
  | succ n ih =>
    obtain ⟨hself, hbelow⟩ := below_iff.mp hwritable
    rw [isValidJsonSubtree] at hvalid
    split_ifs at hvalid with hzero
    · cases hvalid
    rw [encodeValue, if_neg hzero]
    cases hhost : g.host id with
    | null => exact ⟨_, rfl⟩
    | number x => exact ⟨_, rfl⟩
    | other => exact ⟨_, rfl⟩
    | string s =>
      obtain ⟨cs, hcs⟩ := ne_none_iff_exists'.mp (hself.string s hhost)
      refine ⟨encodeString cs, ?_⟩
      dsimp only
      rw [toRustString, if_neg hzero, hhost, text, hcs]
      rfl
    | array items =>
      rw [hhost] at hvalid
      dsimp only at hvalid ⊢
      by_cases hempty : items = []
      · rw [if_pos hempty]
        exact ⟨_, rfl⟩
      rw [if_neg hempty]
      obtain ⟨ts, hts⟩ := exists_forall₂ (l := items)
        (R := fun x t => encodeValue fl g pretty n (depth + 1) x = .ok t) fun x hx =>
          ih (allOf_eq_true.mp hvalid x hx) (hbelow x (.inl ⟨items, hhost, hx⟩)) (depth + 1)
      rw [mapM_eq_ok.mpr hts]
      exact ⟨_, rfl⟩
    | dictionary pairs =>
      rw [hhost] at hvalid
      dsimp only at hvalid ⊢
      by_cases hempty : pairs = []
      · rw [if_pos hempty]
        exact ⟨_, rfl⟩
      rw [if_neg hempty]
      have hall := allPairs_eq_true.mp hvalid
      obtain ⟨ts, hts⟩ := exists_forall₂ (l := pairs)
        (R := fun (p : Id × Id) t => (do
          let k ← toRustString g p.1
          let v ← encodeValue fl g pretty n (depth + 1) p.2
          return encodeString k ++ ':' :: afterColon pretty ++ v :
            Except Trouble (List Char)) = .ok t) (by
        intro p hp
        obtain ⟨hk, hv⟩ := hall p hp
        have hkey := below_iff.mp (hbelow p.1 (.inr ⟨pairs, hhost, p, hp, .inl rfl⟩))
        obtain ⟨v, hv⟩ := ih hv (hbelow p.2 (.inr ⟨pairs, hhost, p, hp, .inr rfl⟩)) (depth + 1)
        cases hs : g.host p.1 with
        | string s =>
          obtain ⟨cs, hcs⟩ := ne_none_iff_exists'.mp (hkey.1.string s hs)
          have hstring : toRustString g p.1 = .ok cs := by
            rw [toRustString, if_neg (host_ne hk), hs, text, hcs]
            rfl
          rw [hstring, ok_bind, hv]
          exact ⟨_, rfl⟩
        | null | number | array | dictionary | other =>
          rw [hs] at hk
          exact hk.elim)
      rw [mapM_eq_ok.mpr hts]
      exact ⟨_, rfl⟩

lemma toRustString_eq_ok (hid : id ≠ 0) {cs : List Char} (h : toRustString g id = .ok cs) :
    (g.host id).text = some cs := by
  rw [toRustString, if_neg hid] at h
  cases htext : (g.host id).text with
  | none =>
    rw [htext] at h
    cases h
  | some s =>
    rw [htext] at h
    exact congrArg some (ok.inj h)

def Written (fl : Floats F) (g : Objects F) (rounds : ℕ) (id : Id) (t : List Char) : Prop :=
  ∃ j, Spells (readNumber fl.parse) (.value j) t ∧
    (∀ depth, Same fl g depth id j → Below g (Writable fl g) id) ∧
    (Below g (Writable fl g) id → Same fl g rounds id j)

lemma written_leaf {rounds : ℕ} {j : Json (NSNumber F)}
    (hspells : Spells (readNumber fl.parse) (.value j) t) (hleaf : ∀ y, ¬ Child g id y)
    (hback : ∀ depth, Same fl g depth id j → Writable fl g id)
    (hsame : Writable fl g id → Same fl g rounds id j) : Written fl g rounds id t := by
  have hbelow : Below g (Writable fl g) id ↔ Writable fl g id := by
    rw [below_iff]
    exact ⟨And.left, fun h => ⟨h, fun y hy => absurd hy (hleaf y)⟩⟩
  refine ⟨j, hspells, fun depth h => ?_, fun h => hsame (hbelow.mp h)⟩
  rw [hbelow]
  exact hback depth h

def Faithful (fl : Floats F) (g : Objects F) (rounds : ℕ) (id : Id) (j : Json (NSNumber F)) : Prop :=
  (∀ depth, Same fl g depth id j → Below g (Writable fl g) id) ∧
    (Below g (Writable fl g) id → Same fl g rounds id j)

lemma writable_of_host {x : Id} (hstring : ∀ s, g.host x ≠ .string s)
    (hnumber : ∀ n, g.host x ≠ .number n) : Writable fl g x :=
  ⟨fun s h => absurd h (hstring s), fun n h => absurd h (hnumber n)⟩

lemma written_array {rounds : ℕ} {items : List Id} (hhost : g.host id = .array items)
    {line tail : List Char} (hline : Blank line) (htail : Blank tail) {ts : List (List Char)}
    (hne : ts ≠ []) (hts : List.Forall₂ (fun x t => Written fl g rounds x t) items ts) :
    Written fl g (rounds + 1) id ('[' :: (separated line ts ++ tail) ++ [']']) := by
  obtain ⟨vs, hspells, hfaithful⟩ := exists_both (P := Faithful fl g rounds) hts fun x _ t h => h
  have hself : Writable fl g id := writable_of_host (by simp [hhost]) (by simp [hhost])
  refine ⟨.array vs, .array (spells_separated hline htail hspells hne), fun depth h => ?_,
    fun h => ?_⟩
  · cases depth with
    | zero => exact h.elim
    | succ depth =>
      rw [Same, hhost] at h
      obtain ⟨vs', heq, hsame⟩ := h
      obtain rfl := Json.array.inj heq
      have hbelow : List.Forall₂ (fun x _ => Below g (Writable fl g) x) items vs :=
        forall₂_of_both hfaithful hsame fun x v hx hv => hx.1 depth hv
      refine below_iff.mpr ⟨hself, ?_⟩
      rintro y (⟨items', hitems, hy⟩ | ⟨pairs, hpairs, -⟩)
      · obtain rfl := array.inj (hhost.symm.trans hitems)
        obtain ⟨v, -, hv⟩ := exists_right hbelow y hy
        exact hv
      · cases hhost.symm.trans hpairs
  · have hbelow := (below_iff.mp h).2
    rw [Same, hhost]
    refine ⟨vs, rfl, ?_⟩
    have hitems : ∀ x ∈ items, Below g (Writable fl g) x :=
      fun x hx => hbelow x (.inl ⟨items, hhost, hx⟩)
    clear hspells hts hhost h hbelow hself hne
    induction hfaithful with
    | nil => exact .nil
    | cons hx _ ih =>
      exact .cons (hx.2 (hitems _ mem_cons_self))
        (ih fun x hx => hitems x (mem_cons_of_mem _ hx))

lemma pairwise_keys {pairs : List (Id × Id)} {es : List (List Char × Json (NSNumber F))}
    (hdistinct : pairs.Pairwise fun p q => ∀ s, (g.host p.1).text = some s →
      (g.host q.1).text ≠ some s)
    (h : List.Forall₂ (fun p e => (g.host p.1).text = some e.1) pairs es) :
    es.Pairwise fun e f => e.1 ≠ f.1 := by
  induction h with
  | nil => exact .nil
  | @cons p e pairs es hpe hes ih =>
    obtain ⟨hp, hpairs⟩ := pairwise_cons.mp hdistinct
    refine pairwise_cons.mpr ⟨fun f hf heq => ?_, ih hpairs⟩
    obtain ⟨q, hq, hqf⟩ := exists_left hes f hf
    exact hp q hq e.1 hpe (heq ▸ hqf)

lemma eq_of_key {α : Type} {es : List (List Char × α)} (h : es.Pairwise fun e f => e.1 ≠ f.1)
    {e f : List Char × α} (he : e ∈ es) (hf : f ∈ es) (heq : e.1 = f.1) : e = f := by
  have hnodup : (es.map Prod.fst).Nodup := pairwise_map.mpr h
  exact inj_on_of_nodup_map hnodup he hf heq

lemma written_dictionary {rounds : ℕ} {pairs : List (Id × Id)}
    (hhost : g.host id = .dictionary pairs) {line space tail : List Char} (hline : Blank line)
    (hspace : Blank space) (htail : Blank tail) {ts : List (List Char)} (hne : ts ≠ [])
    (hts : List.Forall₂ (fun (p : Id × Id) t => (g.host p.1).IsString ∧
      ∃ k u, (g.host p.1).text = some k ∧ Written fl g rounds p.2 u ∧
        t = encodeString k ++ ':' :: space ++ u) pairs ts) :
    Written fl g (rounds + 1) id ('{' :: (separated line ts ++ tail) ++ ['}']) := by
  obtain ⟨es, hspells, hentries⟩ := exists_both
    (Q := fun t e => EntryText (readNumber fl.parse) space t e)
    (P := fun (p : Id × Id) e => ((g.host p.1).IsString ∧ (g.host p.1).text = some e.1) ∧
      Faithful fl g rounds p.2 e.2) hts (by
    rintro p - t ⟨hk, k, u, hkey, ⟨j, hj, hfaithful⟩, rfl⟩
    exact ⟨(k, j), ⟨u, hj, rfl⟩, ⟨hk, hkey⟩, hfaithful⟩)
  have hkeys : List.Forall₂ (fun p e => (g.host p.1).text = some e.1) pairs es :=
    hentries.imp fun _ _ h => h.1.2
  have hpairwise := pairwise_keys (g.distinct id pairs hhost) hkeys
  have hfold : es.foldl (fun d e => setObject d e.1 e.2) [] = es := by
    rw [foldl_setObject (by rwa [nil_append]), nil_append]
  have hdictionary := Spells.dictionary (spells_entries hline hspace htail hspells hne)
  rw [hfold] at hdictionary
  have hself : Writable fl g id := writable_of_host (by simp [hhost]) (by simp [hhost])
  refine ⟨.dictionary es, hdictionary, fun depth h => ?_, fun h => ?_⟩
  · cases depth with
    | zero => exact h.elim
    | succ depth =>
      rw [Same, hhost] at h
      obtain ⟨es', heq, hsame, -⟩ := h
      obtain rfl := Json.dictionary.inj heq
      refine below_iff.mpr ⟨hself, ?_⟩
      rintro y (⟨items, hitems, -⟩ | ⟨pairs', hpairs, p, hp, hy⟩)
      · cases hhost.symm.trans hitems
      obtain rfl := dictionary.inj (hhost.symm.trans hpairs)
      obtain ⟨e, he, ⟨hk, hkey⟩, hfaithful⟩ := exists_right hentries p hp
      obtain rfl | rfl := hy
      · cases hs : g.host p.1 with
        | string s =>
          rw [hs] at hkey
          refine below_iff.mpr ⟨⟨fun s' hs' => ?_, fun n hn => ?_⟩, ?_⟩
          · obtain rfl := string.inj (hs.symm.trans hs')
            exact ne_none_iff_exists'.mpr ⟨e.1, hkey⟩
          · cases hs.symm.trans hn
          · rintro z (⟨items, hitems, -⟩ | ⟨pairs', hpairs', -⟩)
            · cases hs.symm.trans hitems
            · cases hs.symm.trans hpairs'
        | null | number | array | dictionary | other =>
          rw [hs] at hk
          exact hk.elim
      · obtain ⟨f, hf, hkey', hv⟩ := hsame p hp
        obtain rfl := eq_of_key hpairwise he hf (some.inj (hkey.symm.trans hkey'))
        exact hfaithful.1 depth hv
  · have hbelow := (below_iff.mp h).2
    have hvalue : ∀ p ∈ pairs, Below g (Writable fl g) p.2 :=
      fun p hp => hbelow p.2 (.inr ⟨pairs, hhost, p, hp, .inr rfl⟩)
    rw [Same, hhost]
    refine ⟨es, rfl, fun p hp => ?_, fun e he => ?_⟩
    · obtain ⟨e, he, ⟨-, hkey⟩, hfaithful⟩ := exists_right hentries p hp
      exact ⟨e, he, hkey, hfaithful.2 (hvalue p hp)⟩
    · obtain ⟨p, hp, ⟨-, hkey⟩, hfaithful⟩ := exists_left hentries e he
      exact ⟨p, hp, hkey, hfaithful.2 (hvalue p hp)⟩

lemma leaf_of_host (harray : ∀ items, g.host id ≠ .array items)
    (hdictionary : ∀ pairs, g.host id ≠ .dictionary pairs) (y : Id) : ¬ Child g id y := by
  rintro (⟨items, hitems, -⟩ | ⟨pairs, hpairs, -⟩)
  · exact harray items hitems
  · exact hdictionary pairs hpairs

lemma encode_written (hl : fl.Lawful) {n rounds depth : ℕ} {pretty : Bool}
    (hvalid : isValidJsonSubtree g n id = some true) (hfin : Below g (FiniteNumber fl g) id)
    (h : encodeValue fl g pretty rounds depth id = .ok t) : Written fl g rounds id t := by
  induction rounds generalizing id depth t n with
  | zero => cases h
  | succ rounds ih =>
    obtain ⟨hself, hbelow⟩ := below_iff.mp hfin
    cases n with
    | zero => cases hvalid
    | succ n =>
    rw [isValidJsonSubtree] at hvalid
    split_ifs at hvalid with hzero
    · cases hvalid
    rw [encodeValue, if_neg hzero] at h
    cases hhost : g.host id with
    | other =>
      rw [hhost] at hvalid
      cases hvalid
    | null =>
      rw [hhost] at h
      obtain rfl := ok.inj h
      exact written_leaf .null (leaf_of_host (by simp [hhost]) (by simp [hhost]))
        (fun _ _ => writable_of_host (by simp [hhost]) (by simp [hhost]))
        (fun _ => by rw [Same, hhost])
    | number x =>
      rw [hhost] at h
      obtain rfl := ok.inj h
      obtain ⟨j, hspells, hsame⟩ := spells_number hl (hself x hhost)
      refine written_leaf hspells (leaf_of_host (by simp [hhost]) (by simp [hhost]))
        (fun depth h => ?_) fun h => ?_
      · cases depth with
        | zero => exact h.elim
        | succ depth =>
          rw [Same, hhost] at h
          refine ⟨fun s hs => (by cases hhost.symm.trans hs), fun y hy => ?_⟩
          obtain rfl := number.inj (hhost.symm.trans hy)
          exact hsame.mp h
      · rw [Same, hhost]
        exact hsame.mpr (h.number x hhost)
    | string s =>
      rw [hhost] at h
      obtain ⟨cs, hcs, rfl⟩ := map_eq_ok.mp h
      have htext := toRustString_eq_ok hzero hcs
      rw [hhost] at htext
      refine written_leaf (.string (items_encode cs))
        (leaf_of_host (by simp [hhost]) (by simp [hhost])) (fun _ _ => ?_) fun _ => ?_
      · refine ⟨fun s' hs' => ?_, fun y hy => (by cases hhost.symm.trans hy)⟩
        obtain rfl := string.inj (hhost.symm.trans hs')
        exact ne_none_iff_exists'.mpr ⟨cs, htext⟩
      · rw [Same, hhost]
        exact ⟨cs, rfl, htext⟩
    | array items =>
      rw [hhost] at h hvalid
      dsimp only at h hvalid
      by_cases hempty : items = []
      · rw [if_pos hempty] at h
        obtain rfl := ok.inj h
        subst hempty
        have hself' : Writable fl g id := writable_of_host (by simp [hhost]) (by simp [hhost])
        have hspells : Spells (readNumber fl.parse) (.value (.array [])) ['[', ']'] :=
          .emptyArray (w := []) fun _ h => (by cases h)
        refine written_leaf hspells ?_ (fun _ _ => hself') fun _ => ?_
        · rintro y (⟨items, hitems, hy⟩ | ⟨pairs, hpairs, -⟩)
          · obtain rfl := array.inj (hhost.symm.trans hitems)
            cases hy
          · cases hhost.symm.trans hpairs
        · rw [Same, hhost]
          exact ⟨[], rfl, .nil⟩
      · rw [if_neg hempty] at h
        replace h := bind_eq_ok.mp h
        obtain ⟨ts, hts, h⟩ := h
        obtain rfl := ok.inj h
        have hforall := mapM_eq_ok.mp hts
        have hne : ts ≠ [] := by
          rintro rfl
          exact hempty (List.forall₂_nil_right_iff.mp hforall)
        have hwritten : List.Forall₂ (fun x t => Written fl g rounds x t) items ts := by
          obtain ⟨cs, hcs, hitems⟩ := exists_both (Q := fun t c => t = c)
            (P := fun x t => Written fl g rounds x t) hforall fun x hx t ht =>
              ⟨t, rfl, ih (allOf_eq_true.mp hvalid x hx) (hbelow x (.inl ⟨items, hhost, hx⟩)) ht⟩
          rw [List.forall₂_eq_eq_eq] at hcs
          exact hcs ▸ hitems
        exact written_array hhost (blank_newLine _ _) (blank_newLine _ _) hne hwritten
    | dictionary pairs =>
      rw [hhost] at h hvalid
      dsimp only at h hvalid
      by_cases hempty : pairs = []
      · rw [if_pos hempty] at h
        obtain rfl := ok.inj h
        subst hempty
        have hself' : Writable fl g id := writable_of_host (by simp [hhost]) (by simp [hhost])
        have hspells : Spells (readNumber fl.parse) (.value (.dictionary [])) ['{', '}'] :=
          .emptyDictionary (w := []) fun _ h => (by cases h)
        refine written_leaf hspells ?_ (fun _ _ => hself') fun _ => ?_
        · rintro y (⟨items, hitems, -⟩ | ⟨pairs, hpairs, p, hp, -⟩)
          · cases hhost.symm.trans hitems
          · obtain rfl := dictionary.inj (hhost.symm.trans hpairs)
            cases hp
        · rw [Same, hhost]
          exact ⟨[], rfl, fun _ h => (by cases h), fun _ h => (by cases h)⟩
      · rw [if_neg hempty] at h
        replace h := bind_eq_ok.mp h
        obtain ⟨ts, hts, h⟩ := h
        obtain rfl := ok.inj h
        have hforall := mapM_eq_ok.mp hts
        have hne : ts ≠ [] := by
          rintro rfl
          exact hempty (List.forall₂_nil_right_iff.mp hforall)
        have hall := allPairs_eq_true.mp hvalid
        have hspace : Blank (afterColon pretty) := by
          cases pretty with
          | false => exact fun _ h => (by cases h)
          | true => exact fun c hc => mem_singleton.mp hc ▸ by decide
        have hwritten : List.Forall₂ (fun (p : Id × Id) t => (g.host p.1).IsString ∧
            ∃ k u, (g.host p.1).text = some k ∧ Written fl g rounds p.2 u ∧
              t = encodeString k ++ ':' :: afterColon pretty ++ u) pairs ts := by
          obtain ⟨cs, hcs, hpairs⟩ := exists_both (Q := fun t c => t = c)
            (P := fun (p : Id × Id) t => (g.host p.1).IsString ∧
              ∃ k u, (g.host p.1).text = some k ∧ Written fl g rounds p.2 u ∧
                t = encodeString k ++ ':' :: afterColon pretty ++ u) hforall (by
            intro p hp t ht
            obtain ⟨hk, hv⟩ := hall p hp
            obtain ⟨k, hkey, ht⟩ := bind_eq_ok.mp ht
            obtain ⟨u, hu, ht⟩ := bind_eq_ok.mp ht
            obtain rfl := ok.inj ht
            exact ⟨_, rfl, hk, k, u, toRustString_eq_ok (host_ne hk) hkey,
              ih hv (hbelow p.2 (.inr ⟨pairs, hhost, p, hp, .inr rfl⟩)) hu, rfl⟩)
          rw [List.forall₂_eq_eq_eq] at hcs
          exact hcs ▸ hpairs
        exact written_dictionary hhost (blank_newLine _ _) hspace (blank_newLine _ _) hne hwritten

def HostObject.IsContainer : HostObject F → Prop
  | .array _ => True
  | .dictionary _ => True
  | _ => False

lemma isValid_root {depth : ℕ} (hroot : (g.host id).IsContainer) :
    isValidJsonObjectRoot g depth id = isValidJsonSubtree g depth id := by
  have hzero : id ≠ 0 := by
    rintro rfl
    rw [g.nil] at hroot
    exact hroot
  rw [isValidJsonObjectRoot, if_neg hzero]
  cases hhost : g.host id with
  | array => rfl
  | dictionary => rfl
  | null | number | string | other =>
    rw [hhost] at hroot
    exact hroot.elim

lemma isValid_other {depth : ℕ} (hroot : ¬ (g.host id).IsContainer) :
    isValidJsonObjectRoot g depth id = some false := by
  rw [isValidJsonObjectRoot]
  split_ifs
  · rfl
  cases hhost : g.host id with
  | array | dictionary =>
    rw [hhost] at hroot
    exact absurd trivial hroot
  | null => rfl
  | number => rfl
  | string => rfl
  | other => rfl

/-- The check answers, and what is written for a graph that it accepts is read as the same graph, if
its numbers are finite. -/
structure RoundTrips (fl : Floats F) (g : Objects F) (root : Id) : Prop where
  answers : ∃ depth b, isValidJsonObjectRoot g depth root = some b
  reads : (∃ depth, isValidJsonObjectRoot g depth root = some true) →
    Below g (FiniteNumber fl g) root → ∀ pretty, ∃ rounds t j,
      encodeValue fl g pretty rounds 0 root = .ok t ∧
        jsonObjectWithData fl.parse false (utf8 t) = some j ∧ ∃ depth, Same fl g depth root j

lemma parse_spells {j : Json (NSNumber F)} (h : Spells (readNumber fl.parse) (.value j) t)
    (hroot : j.IsContainer) : jsonObjectWithData fl.parse false (utf8 t) = some j := by
  have hnil : Blank [] := fun _ h => (by cases h)
  have hpadded := Spells.padded hnil h hnil
  rw [nil_append, append_nil] at hpadded
  rw [jsonObjectWithData, fromUtf8_utf8, parseRoot_iff.mpr ⟨t, hpadded, rfl⟩]
  exact if_pos (.inr hroot)

lemma Same.container {depth : ℕ} {j : Json (NSNumber F)} (h : Same fl g depth id j)
    (hroot : (g.host id).IsContainer) : j.IsContainer := by
  cases depth with
  | zero => exact h.elim
  | succ depth =>
    rw [Same] at h
    cases hhost : g.host id with
    | array =>
      rw [hhost] at h
      obtain ⟨vs, rfl, -⟩ := h
      trivial
    | dictionary =>
      rw [hhost] at h
      obtain ⟨es, rfl, -⟩ := h
      trivial
    | null | number | string | other =>
      rw [hhost] at hroot
      exact hroot.elim

inductive Half
  | half

def halves : Floats Half where
  isFinite _ := true
  real _ := 1 / 2
  negative _ := false
  display _ := ['0', '.', '5']
  parse _ := .half

lemma halves_lawful : halves.Lawful where
  display := fun _ _ => ⟨⟨false, [0], some [5], none⟩, rfl, by decide, rfl, rfl⟩
  point _ _ _ := rfl
  negative := fun _ _ _ => by simp [halves]

def singleton (o : HostObject F) (ho : ∀ pairs, o ≠ .dictionary pairs) : Objects F where
  host id := if id = 1 then .array [2] else if id = 2 then o else .other
  nil := rfl
  distinct := by
    intro id pairs h
    split_ifs at h
    exact absurd h (ho pairs)

lemma below_singleton {o : HostObject F} {ho : ∀ pairs, o ≠ .dictionary pairs} {P : Id → Prop}
    (harray : ∀ items, o ≠ .array items) (h1 : P 1) (h2 : P 2) : Below (singleton o ho) P 1 := by
  have hleaf : Below (singleton o ho) P 2 :=
    below_iff.mpr ⟨h2, fun y hy => absurd hy (leaf_of_host harray ho y)⟩
  refine below_iff.mpr ⟨h1, ?_⟩
  rintro y (⟨items, hitems, hy⟩ | ⟨pairs, hpairs, -⟩)
  · obtain rfl : [2] = items := array.inj hitems
    obtain rfl := mem_singleton.mp hy
    exact hleaf
  · cases (show array [2] = .dictionary pairs from hpairs)

end TouchHle.Foundation.JsonWriter
