import TouchHle.Lib.Checked
import TouchHle.Foundation.JsonLexing

/-! What the parser reads is spelled by the grammar, and all that the grammar spells is read. -/

namespace TouchHle.Foundation.JsonParser

open Lib List

variable {N : Type} {read : Numeral → Option N} {b : UInt8} {bs rest : List UInt8} {fuel : ℕ}
  {k s t w : List Char} {v : Json N} {vs : List (Json N)} {es : List (List Char × Json N)}

lemma parseKey_sound (h : parseKey bs = .ok (k, rest)) : ∃ w s w', Blank w ∧ Items k s ∧ Blank w' ∧
    bs = utf8 (w ++ '"' :: s ++ '"' :: w' ++ [':']) ++ rest := by
  rw [parseKey] at h
  split at h
  · cases h
  · next bs₁ hquote =>
    obtain ⟨w, hw, rfl⟩ := (token_eq_some (by decide)).mp hquote
    replace h := bind_eq_ok.mp h
    obtain ⟨⟨k', bs₂⟩, hstring, h⟩ := h
    obtain ⟨s, hs, rfl⟩ := stringLoop_sound hstring
    dsimp only at h
    split at h
    · cases h
    · next bs₃ hcolon =>
      obtain ⟨rfl, rfl⟩ := ok_pair_inj h
      obtain ⟨w', hw', rfl⟩ := (token_eq_some (by decide)).mp hcolon
      refine ⟨w, s, w', hw, hs, hw', ?_⟩
      simp [utf8_cons]

def Reads (read : Numeral → Option N) (v : Json N) (bs rest : List UInt8) : Prop :=
  ∃ w t, Blank w ∧ Spells read (.value v) t ∧ bs = utf8 (w ++ t) ++ rest

structure Sound (read : Numeral → Option N) (fuel : ℕ) : Prop where
  value : ∀ bs v rest, parseValue read fuel bs = .ok (v, rest) → Reads read v bs rest
  members : ∀ acc bs es' rest, parseMembers read fuel acc bs = .ok (es', rest) →
    ∃ es t, es' = es.foldl (fun d e => setObject d e.1 e.2) acc ∧ Spells read (.members es) t ∧
      bs = utf8 (t ++ ['}']) ++ rest
  elements : ∀ acc bs vs' rest, parseElements read fuel acc bs = .ok (vs', rest) →
    ∃ vs t, vs' = acc ++ vs ∧ Spells read (.elements vs) t ∧ bs = utf8 (t ++ [']']) ++ rest

lemma Sound.zero : Sound read 0 :=
  ⟨fun _ _ _ h => (by cases h), fun _ _ _ _ h => (by cases h), fun _ _ _ _ h => (by cases h)⟩

lemma Reads.padded {w : List Char} (h : Reads read v bs (utf8 w ++ rest)) (hw : Blank w) :
    ∃ t, Spells read (.padded v) t ∧ bs = utf8 t ++ rest := by
  obtain ⟨w₀, t, hw₀, ht, rfl⟩ := h
  exact ⟨w₀ ++ t ++ w, .padded hw₀ ht hw, by simp⟩

lemma Sound.value_succ (h : Sound read fuel)
    (hok : parseValue read (fuel + 1) bs = .ok (v, rest)) : Reads read v bs rest := by
  obtain ⟨w, hw, hbs⟩ := skipWs_spells bs
  suffices ∃ t, Spells read (.value v) t ∧ skipWs bs = utf8 t ++ rest by
    obtain ⟨t, ht, hskip⟩ := this
    exact ⟨w, t, hw, ht, by rw [hbs, hskip, utf8_append, append_assoc]⟩
  rw [parseValue] at hok
  split at hok
  · cases hok
  next b bs' hskip =>
  have hopen : ∀ {c : Char} {t : List Char}, c.toNat < 0x80 → b = ascii c →
      b :: (utf8 t ++ rest) = utf8 (c :: t) ++ rest := by
    rintro c t hc rfl
    rw [utf8_ascii hc, cons_append]
  rw [hskip]
  split_ifs at hok with hbrace hbracket hquote htrue hfalse hnull hnumber
  · split at hok
    · next bs₁ hclose =>
      obtain ⟨rfl, rfl⟩ := ok_pair_inj hok
      obtain ⟨w', hw', rfl⟩ := (token_eq_some (by decide)).mp hclose
      exact ⟨_, .emptyDictionary hw', hopen (by decide) hbrace⟩
    · replace hok := bind_eq_ok.mp hok
      obtain ⟨⟨es, bs₁⟩, hmembers, hok⟩ := hok
      obtain ⟨rfl, rfl⟩ := ok_pair_inj hok
      obtain ⟨es', t, rfl, ht, rfl⟩ := h.members _ _ _ _ hmembers
      exact ⟨_, .dictionary ht, hopen (by decide) hbrace⟩
  · split at hok
    · next bs₁ hclose =>
      obtain ⟨rfl, rfl⟩ := ok_pair_inj hok
      obtain ⟨w', hw', rfl⟩ := (token_eq_some (by decide)).mp hclose
      exact ⟨_, .emptyArray hw', hopen (by decide) hbracket⟩
    · replace hok := bind_eq_ok.mp hok
      obtain ⟨⟨vs, bs₁⟩, helements, hok⟩ := hok
      obtain ⟨rfl, rfl⟩ := ok_pair_inj hok
      obtain ⟨vs', t, rfl, ht, rfl⟩ := h.elements _ _ _ _ helements
      exact ⟨_, .array ht, hopen (by decide) hbracket⟩
  · replace hok := bind_eq_ok.mp hok
    obtain ⟨⟨s, bs₁⟩, hstring, hok⟩ := hok
    obtain ⟨rfl, rfl⟩ := ok_pair_inj hok
    obtain ⟨t, ht, rfl⟩ := stringLoop_sound hstring
    exact ⟨_, .string ht, hopen (by decide) hquote⟩
  · replace hok := bind_eq_ok.mp hok
    obtain ⟨bs₁, hexpect, hok⟩ := hok
    obtain ⟨rfl, rfl⟩ := ok_pair_inj hok
    have hascii : ∀ c ∈ ['t', 'r', 'u', 'e'], c.toNat < 0x80 := by simp
    exact ⟨_, .true, (expect_eq_ok hascii).mp hexpect⟩
  · replace hok := bind_eq_ok.mp hok
    obtain ⟨bs₁, hexpect, hok⟩ := hok
    obtain ⟨rfl, rfl⟩ := ok_pair_inj hok
    have hascii : ∀ c ∈ ['f', 'a', 'l', 's', 'e'], c.toNat < 0x80 := by simp
    exact ⟨_, .false, (expect_eq_ok hascii).mp hexpect⟩
  · replace hok := bind_eq_ok.mp hok
    obtain ⟨bs₁, hexpect, hok⟩ := hok
    obtain ⟨rfl, rfl⟩ := ok_pair_inj hok
    have hascii : ∀ c ∈ ['n', 'u', 'l', 'l'], c.toNat < 0x80 := by simp
    exact ⟨_, .null, (expect_eq_ok hascii).mp hexpect⟩
  · replace hok := bind_eq_ok.mp hok
    obtain ⟨⟨n, bs₁⟩, hparse, hok⟩ := hok
    obtain ⟨rfl, rfl⟩ := ok_pair_inj hok
    rw [parseNumber] at hparse
    split at hparse
    · cases hparse
    · next x hread =>
      obtain ⟨rfl, rfl⟩ := ok_pair_inj hparse
      exact ⟨_, .number (scanNumber_start hnumber) hread, scanNumber_sound _⟩

lemma Sound.members_succ (h : Sound read fuel) {acc es' : List (List Char × Json N)}
    (hok : parseMembers read (fuel + 1) acc bs = .ok (es', rest)) :
    ∃ es t, es' = es.foldl (fun d e => setObject d e.1 e.2) acc ∧ Spells read (.members es) t ∧
      bs = utf8 (t ++ ['}']) ++ rest := by
  rw [parseMembers] at hok
  replace hok := bind_eq_ok.mp hok
  obtain ⟨⟨k, bs₁⟩, hkey, hok⟩ := hok
  obtain ⟨w, s, w', hw, hs, hw', rfl⟩ := parseKey_sound hkey
  replace hok := bind_eq_ok.mp hok
  obtain ⟨⟨v, bs₂⟩, hvalue, hok⟩ := hok
  have hreads := h.value _ _ _ hvalue
  dsimp only at hok hreads
  split at hok
  · next bs₃ hcomma =>
    obtain ⟨w'', hw'', rfl⟩ := (token_eq_some (by decide)).mp hcomma
    obtain ⟨es, ts, rfl, hts, rfl⟩ := h.members _ _ _ _ hok
    rw [utf8_append, append_assoc] at hreads
    obtain ⟨t, ht, rfl⟩ := hreads.padded hw''
    refine ⟨(k, v) :: es, _, rfl, .members hw hs hw' ht hts, ?_⟩
    simp [utf8_cons]
  · split at hok
    · next bs₃ hclose =>
      obtain ⟨rfl, rfl⟩ := ok_pair_inj hok
      obtain ⟨w'', hw'', rfl⟩ := (token_eq_some (by decide)).mp hclose
      rw [utf8_append, append_assoc] at hreads
      obtain ⟨t, ht, rfl⟩ := hreads.padded hw''
      refine ⟨[(k, v)], _, rfl, .member hw hs hw' ht, ?_⟩
      simp [utf8_cons]
    · cases hok

lemma Sound.elements_succ (h : Sound read fuel) {acc vs' : List (Json N)}
    (hok : parseElements read (fuel + 1) acc bs = .ok (vs', rest)) :
    ∃ vs t, vs' = acc ++ vs ∧ Spells read (.elements vs) t ∧ bs = utf8 (t ++ [']']) ++ rest := by
  rw [parseElements] at hok
  replace hok := bind_eq_ok.mp hok
  obtain ⟨⟨v, bs₁⟩, hvalue, hok⟩ := hok
  have hreads := h.value _ _ _ hvalue
  dsimp only at hok hreads
  split at hok
  · next bs₂ hcomma =>
    obtain ⟨w, hw, rfl⟩ := (token_eq_some (by decide)).mp hcomma
    obtain ⟨vs, ts, rfl, hts, rfl⟩ := h.elements _ _ _ _ hok
    rw [utf8_append, append_assoc] at hreads
    obtain ⟨t, ht, rfl⟩ := hreads.padded hw
    refine ⟨v :: vs, _, by simp, .elements ht hts, ?_⟩
    simp [utf8_cons]
  · split at hok
    · next bs₂ hclose =>
      obtain ⟨rfl, rfl⟩ := ok_pair_inj hok
      obtain ⟨w, hw, rfl⟩ := (token_eq_some (by decide)).mp hclose
      rw [utf8_append, append_assoc] at hreads
      obtain ⟨t, ht, rfl⟩ := hreads.padded hw
      exact ⟨[v], t, rfl, .element ht, by simp⟩
    · cases hok

lemma sound (read : Numeral → Option N) (fuel : ℕ) : Sound read fuel := by
  induction fuel with
  | zero => exact .zero
  | succ fuel ih =>
    exact ⟨fun _ _ _ => ih.value_succ, fun _ _ _ _ => ih.members_succ,
      fun _ _ _ _ => ih.elements_succ⟩

lemma length_utf8_ascii {c : Char} (h : c.toNat < 0x80) :
    (utf8 (c :: t)).length = (utf8 t).length + 1 := by
  rw [utf8_ascii h]
  rfl

lemma parseKey_complete {w' : List Char} (hw : Blank w) (hs : Items k s) (hw' : Blank w')
    (r : List Char) :
    parseKey (utf8 (w ++ '"' :: s ++ '"' :: w' ++ ':' :: r)) = .ok (k, utf8 r) := by
  have hquote : token '"' (utf8 (w ++ '"' :: s ++ '"' :: w' ++ ':' :: r)) =
      some (utf8 (s ++ '"' :: (w' ++ ':' :: r))) :=
    (token_eq_some (by decide)).mpr ⟨w, hw, by simp [utf8_cons]⟩
  have hcolon : token ':' (utf8 (w' ++ ':' :: r)) = some (utf8 r) :=
    (token_eq_some (by decide)).mpr ⟨w', hw', by simp [utf8_cons]⟩
  rw [parseKey, hquote]
  dsimp only
  rw [parseString_complete hs, ok_bind]
  dsimp only
  rw [hcolon]
  rfl

def Starts (t : List Char) : Prop :=
  ∃ w c t', Blank w ∧ t = w ++ c :: t' ∧ Structural c ∧ c ≠ ']' ∧ c ≠ '}'

lemma Starts.append {t' : List Char} (h : Starts t) : Starts (t ++ t') := by
  obtain ⟨w, c, u, hw, rfl, hc⟩ := h
  exact ⟨w, c, u ++ t', hw, by simp, hc⟩

lemma Starts.blank (hw : Blank w) (h : Starts t) : Starts (w ++ t) := by
  obtain ⟨w', c, u, hw', rfl, hc⟩ := h
  refine ⟨w ++ w', c, u, fun d hd => ?_, by simp, hc⟩
  obtain hd | hd := mem_append.mp hd
  · exact hw d hd
  · exact hw' d hd

lemma starts_cons {c : Char} (hc : Structural c ∧ c ≠ ']' ∧ c ≠ '}') : Starts (c :: t) :=
  ⟨[], c, t, fun _ h => (by cases h), rfl, hc⟩

lemma starts_number {n : Numeral} (h : n.minus = true ∨ n.int ≠ []) : Starts n.text := by
  obtain ⟨minus, int, frac, exp⟩ := n
  rw [numeral_text]
  cases minus with
  | true => exact starts_cons (by decide)
  | false =>
    cases int with
    | nil => exact absurd rfl (h.resolve_left Bool.false_ne_true)
    | cons d ds =>
      have hd : ∀ d : Digit, Structural (Digit.char d) ∧ Digit.char d ≠ ']' ∧ Digit.char d ≠ '}' := by
        decide
      exact starts_cons (hd d)

lemma starts {f : Form N} (h : Spells read f t) : Starts t := by
  induction h with
  | null => exact starts_cons (by decide)
  | true => exact starts_cons (by decide)
  | false => exact starts_cons (by decide)
  | number hn => exact starts_number hn
  | string => exact starts_cons (by decide)
  | emptyArray => exact starts_cons (by decide)
  | array => exact starts_cons (by decide)
  | emptyDictionary => exact starts_cons (by decide)
  | dictionary => exact starts_cons (by decide)
  | padded hw _ _ ih =>
    rw [append_assoc]
    exact .blank hw ih.append
  | element _ ih => exact ih
  | elements _ _ ih => exact ih.append
  | member hw =>
    rw [append_assoc, append_assoc]
    exact .blank hw (starts_cons (by decide))
  | members hw =>
    rw [append_assoc, append_assoc, append_assoc]
    exact .blank hw (starts_cons (by decide))

lemma Starts.token_eq_none {c : Char} (h : Starts t) (hc : c = ']' ∨ c = '}') :
    token c (utf8 t) = none := by
  obtain ⟨w, d, u, hw, rfl, hd, hbracket, hbrace⟩ := h
  rw [utf8_append, utf8_ascii hd.1]
  apply JsonParser.token_eq_none hw
  · exact Bool.eq_false_iff.mpr fun hb => hd.2 ((isBlank_ascii hd.1).mp hb)
  · intro heq
    have hdc : d = c := by
      rw [← asChar_ascii hd.1, heq]
      obtain rfl | rfl := hc <;> exact asChar_ascii (by decide)
    obtain rfl | rfl := hc
    · exact hbracket hdc
    · exact hbrace hdc

def Follows (r : List Char) : Prop := ∀ c ∈ r.head?, c ∈ whitespace ++ [',', ']', '}']

lemma Follows.ends {r : List Char} (h : Follows r) : Ends (utf8 r) := by
  intro b hb
  cases r with
  | nil => cases hb
  | cons c r =>
    have hc := h c rfl
    have hall : ∀ c ∈ whitespace ++ [',', ']', '}'], c.toNat < 0x80 ∧ digit (ascii c) = none ∧
        ascii c ∉ ['.', 'e', 'E', '+', '-'].map ascii := by
      intro c hc
      have hcases : c = ' ' ∨ c = '\t' ∨ c = '\n' ∨ c = '\r' ∨ c = ',' ∨ c = ']' ∨ c = '}' := by
        simpa [whitespace] using hc
      obtain rfl | rfl | rfl | rfl | rfl | rfl | rfl := hcases <;> decide
    rw [utf8_ascii (hall c hc).1] at hb
    obtain rfl := Option.some.inj hb
    exact (hall c hc).2

def Complete (read : Numeral → Option N) : Form N → List Char → Prop
  | .value v, t => ∀ r fuel, Follows r → rounds (utf8 (t ++ r)) ≤ fuel →
      parseValue read fuel (utf8 (t ++ r)) = .ok (v, utf8 r)
  | .padded v, t => ∀ r fuel, (∀ c ∈ r.head?, c ∈ [',', ']', '}']) →
      rounds (utf8 (t ++ r)) ≤ fuel →
      ∃ w, Blank w ∧ parseValue read fuel (utf8 (t ++ r)) = .ok (v, utf8 (w ++ r))
  | .elements vs, t => ∀ acc r fuel, rounds (utf8 (t ++ ']' :: r)) < fuel →
      parseElements read fuel acc (utf8 (t ++ ']' :: r)) = .ok (acc ++ vs, utf8 r)
  | .members es, t => ∀ acc r fuel, rounds (utf8 (t ++ '}' :: r)) < fuel →
      parseMembers read fuel acc (utf8 (t ++ '}' :: r)) =
        .ok (es.foldl (fun d e => setObject d e.1 e.2) acc, utf8 r)

lemma skipWs_char {c : Char} (hc : Structural c) : skipWs (utf8 (c :: t)) = ascii c :: utf8 t := by
  rw [utf8_ascii hc.1]
  exact skipWs_start (Bool.eq_false_iff.mpr fun hb => hc.2 ((isBlank_ascii hc.1).mp hb))

lemma rounds_le (hlen : bs.length + 1 ≤ rest.length) (h : rounds rest ≤ fuel + 1) : rounds bs < fuel := by
  rw [rounds] at *
  omega

lemma exists_fuel (h : rounds bs ≤ fuel) : ∃ n, fuel = n + 1 := by
  rw [rounds] at h
  exact ⟨fuel - 1, by omega⟩

lemma complete_word {v : Json N} {c : Char} {word : List Char} (hc : Structural c)
    (hl : ∀ d ∈ c :: word, d.toNat < 0x80)
    (hword : ∀ fuel bs bs' rest, skipWs bs = ascii c :: bs' → expect (c :: word) (ascii c :: bs') = .ok rest →
      parseValue read (fuel + 1) bs = .ok (v, rest)) :
    Complete read (.value v) (c :: word) := by
  intro r fuel hr hfuel
  obtain ⟨fuel, rfl⟩ := exists_fuel hfuel
  have hexpect := (expect_eq_ok hl).mpr (utf8_append : utf8 (_ ++ r) = _)
  rw [cons_append, utf8_ascii hc.1] at hexpect
  exact hword fuel _ _ _ (skipWs_char hc) hexpect

lemma complete_null : Complete read (.value .null) ['n', 'u', 'l', 'l'] := by
  refine complete_word (by decide) (by simp) fun fuel bs bs' rest hskip hexpect => ?_
  rw [parseValue, hskip]
  dsimp only
  rw [if_neg (by decide), if_neg (by decide), if_neg (by decide), if_neg (by decide),
    if_neg (by decide), if_pos rfl, hexpect]
  rfl

lemma complete_true : Complete read (.value (.bool true)) ['t', 'r', 'u', 'e'] := by
  refine complete_word (by decide) (by simp) fun fuel bs bs' rest hskip hexpect => ?_
  rw [parseValue, hskip]
  dsimp only
  rw [if_neg (by decide), if_neg (by decide), if_neg (by decide), if_pos rfl, hexpect]
  rfl

lemma complete_false : Complete read (.value (.bool false)) ['f', 'a', 'l', 's', 'e'] := by
  refine complete_word (by decide) (by simp) fun fuel bs bs' rest hskip hexpect => ?_
  rw [parseValue, hskip]
  dsimp only
  rw [if_neg (by decide), if_neg (by decide), if_neg (by decide), if_neg (by decide), if_pos rfl,
    hexpect]
  rfl

lemma complete_number {n : Numeral} {x : N} (hn : n.minus = true ∨ n.int ≠ [])
    (hread : read n = some x) : Complete read (.value (.number x)) n.text := by
  intro r fuel hr hfuel
  obtain ⟨fuel, rfl⟩ := exists_fuel hfuel
  have hscan := scanNumber_complete n hr.ends
  rw [← utf8_append] at hscan
  obtain ⟨c, u, hu, hc, hnot, hlead⟩ : ∃ c u, n.text = c :: u ∧ Structural c ∧
      ascii c ∉ ['{', '[', '"', 't', 'f', 'n'].map ascii ∧
      (ascii c = ascii '-' ∨ (digit (ascii c)).isSome) := by
    obtain ⟨minus, int, frac, exp⟩ := n
    cases minus with
    | true => exact ⟨'-', _, rfl, by decide, by decide, .inl rfl⟩
    | false =>
      cases int with
      | nil => exact absurd rfl (hn.resolve_left Bool.false_ne_true)
      | cons d ds =>
        have hd : ∀ d : Digit, Structural (Digit.char d) ∧
            ascii (Digit.char d) ∉ ['{', '[', '"', 't', 'f', 'n'].map ascii := by decide
        exact ⟨Digit.char d, _, rfl, (hd d).1, (hd d).2, .inr (by rw [digit_eq_some.mpr rfl]; rfl)⟩
  have hne : ∀ d, d ∈ ['{', '[', '"', 't', 'f', 'n'] → ascii c ≠ ascii d := by
    intro d hd heq
    exact hnot (heq ▸ mem_map_of_mem hd)
  rw [hu] at hscan ⊢
  rw [cons_append, utf8_ascii hc.1] at hscan
  rw [cons_append, parseValue, skipWs_char hc]
  dsimp only
  rw [if_neg (hne _ (by decide)), if_neg (hne _ (by decide)), if_neg (hne _ (by decide)),
    if_neg (hne _ (by decide)), if_neg (hne _ (by decide)), if_neg (hne _ (by decide)), if_pos hlead,
    parseNumber, hscan]
  dsimp only
  rw [hread]
  rfl

lemma complete_string (hs : Items s t) : Complete read (.value (.string s)) ('"' :: t ++ ['"']) := by
  intro r fuel hr hfuel
  obtain ⟨fuel, rfl⟩ := exists_fuel hfuel
  rw [append_assoc, cons_append, parseValue, skipWs_char (by decide)]
  dsimp only
  rw [if_neg (by decide), if_neg (by decide), if_pos rfl, singleton_append,
    parseString_complete hs]
  rfl

lemma complete_emptyArray (hw : Blank w) : Complete read (.value (.array [])) ('[' :: w ++ [']']) := by
  intro r fuel hr hfuel
  obtain ⟨fuel, rfl⟩ := exists_fuel hfuel
  have hclose : token ']' (utf8 (w ++ [']'] ++ r)) = some (utf8 r) :=
    (token_eq_some (by decide)).mpr ⟨w, hw, by simp [utf8_cons]⟩
  rw [cons_append, cons_append, parseValue, skipWs_char (by decide)]
  dsimp only
  rw [if_neg (by decide), if_pos rfl, hclose]
  rfl

lemma complete_emptyDictionary (hw : Blank w) :
    Complete read (.value (.dictionary [])) ('{' :: w ++ ['}']) := by
  intro r fuel hr hfuel
  obtain ⟨fuel, rfl⟩ := exists_fuel hfuel
  have hclose : token '}' (utf8 (w ++ ['}'] ++ r)) = some (utf8 r) :=
    (token_eq_some (by decide)).mpr ⟨w, hw, by simp [utf8_cons]⟩
  rw [cons_append, cons_append, parseValue, skipWs_char (by decide)]
  dsimp only
  rw [if_pos rfl, hclose]
  rfl

lemma complete_array (ht : Spells read (.elements vs) t) (ih : Complete read (.elements vs) t) :
    Complete read (.value (.array vs)) ('[' :: t ++ [']']) := by
  intro r fuel hr hfuel
  obtain ⟨fuel, rfl⟩ := exists_fuel hfuel
  have hopen : token ']' (utf8 (t ++ ']' :: r)) = none := (starts ht).append.token_eq_none (.inl rfl)
  rw [append_assoc, cons_append, singleton_append] at hfuel ⊢
  have hlen := length_utf8_ascii (t := t ++ ']' :: r) (show '['.toNat < 0x80 by decide)
  rw [parseValue, skipWs_char (by decide)]
  dsimp only
  rw [if_neg (by decide), if_pos rfl, hopen]
  dsimp only
  rw [ih [] r fuel (rounds_le hlen.ge hfuel)]
  rfl

lemma complete_dictionary (ht : Spells read (.members es) t) (ih : Complete read (.members es) t) :
    Complete read (.value (.dictionary (es.foldl (fun d e => setObject d e.1 e.2) [])))
      ('{' :: t ++ ['}']) := by
  intro r fuel hr hfuel
  obtain ⟨fuel, rfl⟩ := exists_fuel hfuel
  have hopen : token '}' (utf8 (t ++ '}' :: r)) = none := (starts ht).append.token_eq_none (.inr rfl)
  rw [append_assoc, cons_append, singleton_append] at hfuel ⊢
  have hlen := length_utf8_ascii (t := t ++ '}' :: r) (show '{'.toNat < 0x80 by decide)
  rw [parseValue, skipWs_char (by decide)]
  dsimp only
  rw [if_pos rfl, hopen]
  dsimp only
  rw [ih [] r fuel (rounds_le hlen.ge hfuel)]
  rfl

lemma complete_padded {w' : List Char} (hw : Blank w) (hw' : Blank w')
    (ih : Complete read (.value v) t) : Complete read (.padded v) (w ++ t ++ w') := by
  intro r fuel hr hfuel
  obtain ⟨fuel, rfl⟩ := exists_fuel hfuel
  have hfollows : Follows (w' ++ r) := by
    intro c hc
    cases w' with
    | nil => exact mem_append_right _ (hr c hc)
    | cons d w' =>
      obtain rfl := Option.some.inj hc
      exact mem_append_left _ (hw' _ mem_cons_self)
  refine ⟨w', hw', ?_⟩
  have hrounds : rounds (utf8 (t ++ (w' ++ r))) ≤ fuel + 1 := by
    refine le_trans ?_ hfuel
    rw [rounds, rounds]
    simp only [utf8_append, length_append]
    omega
  have hvalue := ih (w' ++ r) (fuel + 1) hfollows hrounds
  have hskip : skipWs (utf8 (w ++ t ++ w' ++ r)) = skipWs (utf8 (t ++ (w' ++ r))) := by
    rw [append_assoc, append_assoc, utf8_append, skipWs_blank hw]
  rw [parseValue] at hvalue ⊢
  rwa [hskip]

lemma token_close {c : Char} (hw : Blank w) (hc : Structural c) (hne : ascii c ≠ ascii ',')
    (r : List Char) : token ',' (utf8 (w ++ c :: r)) = none ∧
      token c (utf8 (w ++ c :: r)) = some (utf8 r) := by
  constructor
  · rw [utf8_append, utf8_ascii hc.1]
    refine JsonParser.token_eq_none hw ?_ hne
    exact Bool.eq_false_iff.mpr fun hb => hc.2 ((isBlank_ascii hc.1).mp hb)
  · exact (token_eq_some hc).mpr ⟨w, hw, by simp [utf8_cons]⟩

lemma token_comma (hw : Blank w) (r : List Char) :
    token ',' (utf8 (w ++ ',' :: r)) = some (utf8 r) :=
  (token_eq_some (by decide)).mpr ⟨w, hw, by simp [utf8_cons]⟩

lemma exists_fuel_lt (h : rounds bs < fuel) : ∃ n, fuel = n + 1 ∧ rounds bs ≤ n :=
  ⟨fuel - 1, by omega, by omega⟩

lemma length_after {c : Char} (hc : c.toNat < 0x80) (t ts : List Char) :
    (utf8 ts).length + 1 ≤ (utf8 (t ++ c :: ts)).length := by
  rw [utf8_append, length_append, length_utf8_ascii hc]
  omega

lemma rounds_after {c : Char} (hc : c.toNat < 0x80) (t : List Char) {ts : List Char}
    (h : rounds (utf8 (t ++ c :: ts)) ≤ fuel) : rounds (utf8 ts) < fuel :=
  rounds_le (length_after hc t ts) (h.trans (Nat.le_succ fuel))

lemma complete_element (ih : Complete read (.padded v) t) : Complete read (.elements [v]) t := by
  intro acc r fuel hfuel
  obtain ⟨fuel, rfl, hle⟩ := exists_fuel_lt hfuel
  obtain ⟨w, hw, hvalue⟩ := ih (']' :: r) fuel (by simp) hle
  obtain ⟨hcomma, hclose⟩ := token_close hw (show Structural ']' by decide) (by decide) r
  rw [parseElements, hvalue, ok_bind]
  dsimp only
  rw [hcomma, hclose]
  rfl

lemma complete_elements {ts : List Char} (ih : Complete read (.padded v) t)
    (ihs : Complete read (.elements vs) ts) : Complete read (.elements (v :: vs)) (t ++ ',' :: ts) := by
  intro acc r fuel hfuel
  rw [append_assoc, cons_append] at hfuel ⊢
  obtain ⟨fuel, rfl, hle⟩ := exists_fuel_lt hfuel
  obtain ⟨w, hw, hvalue⟩ := ih (',' :: (ts ++ ']' :: r)) fuel (by simp) hle
  have hrounds : rounds (utf8 (ts ++ ']' :: r)) < fuel := rounds_after (by decide) t hle
  rw [parseElements, hvalue, ok_bind]
  dsimp only
  rw [token_comma hw]
  dsimp only
  rw [ihs (acc ++ [v]) r fuel hrounds, append_assoc]
  rfl

lemma complete_member {w' : List Char} (hw : Blank w) (hs : Items k s) (hw' : Blank w')
    (ih : Complete read (.padded v) t) :
    Complete read (.members [(k, v)]) (w ++ '"' :: s ++ '"' :: w' ++ ':' :: t) := by
  intro acc r fuel hfuel
  rw [append_assoc, cons_append] at hfuel ⊢
  obtain ⟨fuel, rfl, hle⟩ := exists_fuel_lt hfuel
  have hrounds : rounds (utf8 (t ++ '}' :: r)) ≤ fuel := (rounds_after (by decide) _ hle).le
  obtain ⟨w₁, hw₁, hvalue⟩ := ih ('}' :: r) fuel (by simp) hrounds
  obtain ⟨hcomma, hclose⟩ := token_close hw₁ (show Structural '}' by decide) (by decide) r
  rw [parseMembers, parseKey_complete hw hs hw', ok_bind]
  dsimp only
  rw [hvalue, ok_bind]
  dsimp only
  rw [hcomma, hclose]
  rfl

lemma complete_members {w' ts : List Char} (hw : Blank w) (hs : Items k s) (hw' : Blank w')
    (ih : Complete read (.padded v) t) (ihs : Complete read (.members es) ts) :
    Complete read (.members ((k, v) :: es))
      (w ++ '"' :: s ++ '"' :: w' ++ ':' :: t ++ ',' :: ts) := by
  intro acc r fuel hfuel
  have hassoc : w ++ '"' :: s ++ '"' :: w' ++ ':' :: t ++ ',' :: ts ++ '}' :: r =
      w ++ '"' :: s ++ '"' :: w' ++ ':' :: (t ++ ',' :: (ts ++ '}' :: r)) := by simp
  rw [hassoc] at hfuel ⊢
  obtain ⟨fuel, rfl, hle⟩ := exists_fuel_lt hfuel
  have hrounds : rounds (utf8 (t ++ ',' :: (ts ++ '}' :: r))) ≤ fuel :=
    (rounds_after (by decide) _ hle).le
  obtain ⟨w₁, hw₁, hvalue⟩ := ih (',' :: (ts ++ '}' :: r)) fuel (by simp) hrounds
  have hrest : rounds (utf8 (ts ++ '}' :: r)) < fuel := rounds_after (by decide) t hrounds
  rw [parseMembers, parseKey_complete hw hs hw', ok_bind]
  dsimp only
  rw [hvalue, ok_bind]
  dsimp only
  rw [token_comma hw₁]
  exact ihs (setObject acc k v) r fuel hrest

lemma complete {f : Form N} (h : Spells read f t) : Complete read f t := by
  induction h with
  | null => exact complete_null
  | true => exact complete_true
  | false => exact complete_false
  | number hn hread => exact complete_number hn hread
  | string hs => exact complete_string hs
  | emptyArray hw => exact complete_emptyArray hw
  | array ht ih => exact complete_array ht ih
  | emptyDictionary hw => exact complete_emptyDictionary hw
  | dictionary ht ih => exact complete_dictionary ht ih
  | padded hw _ hw' ih => exact complete_padded hw hw' ih
  | element _ ih => exact complete_element ih
  | elements _ _ ih ihs => exact complete_elements ih ihs
  | member hw hs hw' _ ih => exact complete_member hw hs hw' ih
  | members hw hs hw' _ _ ih ihs => exact complete_members hw hs hw' ih ihs

theorem parseRoot_iff {v : Json N} :
    parseRoot read bs = .ok v ↔ ∃ t, Spells read (.padded v) t ∧ bs = utf8 t := by
  rw [parseRoot]
  constructor
  · intro h
    replace h := bind_eq_ok.mp h
    obtain ⟨⟨v', rest⟩, hvalue, h⟩ := h
    dsimp only at h
    split_ifs at h with hrest
    obtain rfl := Except.ok.inj h
    have hreads := (sound read _).value _ _ _ hvalue
    obtain ⟨w, hw, heq⟩ := skipWs_spells rest
    rw [hrest] at heq
    rw [heq] at hreads
    obtain ⟨t, ht, htext⟩ := hreads.padded hw
    exact ⟨t, ht, by rw [htext, append_nil]⟩
  · rintro ⟨t, ht, rfl⟩
    obtain ⟨w, hw, hvalue⟩ := complete ht [] (rounds (utf8 t)) (fun _ h => (by cases h))
      (by rw [append_nil])
    have hskip : skipWs (utf8 w) = [] := by
      rw [← append_nil (utf8 w), skipWs_blank hw]
      rfl
    rw [append_nil] at hvalue
    rw [hvalue, ok_bind]
    dsimp only
    rw [append_nil, if_pos hskip]
    rfl

end TouchHle.Foundation.JsonParser
