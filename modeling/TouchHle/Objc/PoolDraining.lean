import TouchHle.Objc.AutoreleasePool

/-! The stacks of autorelease pools hold live pools, and pools release what was added to them: over
every run of the threads. -/

namespace TouchHle.Objc.AutoreleasePool

open Lib Function List Except Option AList Table

structure Ledger where
  env : Env
  added : Id → ℕ
  released : Id → ℕ

def Env.currentPool (env : Env) (currentThread : ThreadId) : Option Id :=
  (env.poolStacks.lookup currentThread).bind List.getLast?

def adds (env : Env) : Request → Option Id
  | .addObject _ obj => some obj
  | .addObjectToCurrent currentThread obj => (env.currentPool currentThread).map fun _ => obj
  | .autorelease currentThread obj =>
    if obj ∈ env.pools then none else (env.currentPool currentThread).map fun _ => obj
  | _ => none

def releases (env : Env) : Request → Option Id
  | .resume i => env.draining[i]?.bind fun d => d.objects.head?
  | _ => none

def record (account : Id → ℕ) : Option Id → Id → ℕ
  | none => account
  | some obj => update account obj (account obj + 1)

namespace Ledger

def step (w : Ledger) (r : Request) : Checked Ledger :=
  (fun env => ⟨env, record w.added (adds w.env r), record w.released (releases w.env r)⟩) <$>
    w.env.step r

def start : Ledger :=
  ⟨⟨fun _ => none, ∅, fun _ => ⟨0, []⟩, ∅, []⟩, fun _ => 0, fun _ => 0⟩

end Ledger

namespace Env

def doomed (env : Env) : List Id := env.draining.flatMap Draining.toDrop

def live (env : Env) (pool : Id) : Bool := pool ∈ env.pools && (env.objects.count pool).isSome

def stacked (env : Env) (pool : Id) : Bool :=
  env.poolStacks.entries.any fun e => pool ∈ e.2

def canRelease (env : Env) (currentThread : ThreadId) (object : Id) : Bool :=
  object ∉ env.pools || env.objects.count object ≠ some .one ||
    env.poolStacks.entries.all fun e =>
      object ∉ e.2 || e.1 = env.lookupThread currentThread object

def inPools (env : Env) (o : Id) : ℕ := Table.sumValues (fun host => host.objects.count o) env.pools

def inDrains (env : Env) (o : Id) : ℕ := (env.draining.map fun d => d.objects.count o).sum

end Env

/-- How pools are to be used: a pool is pushed once, while it is live; objects are added to pools
that are there; a pool on a stack is released where that stack is found; and the address of a pool
that is still to be deallocated is not used again. -/
def Use (env : Env) : Request → Bool
  | .allocObject ptr | .allocPool _ ptr => ptr ∉ env.doomed
  | .init _ pool => env.live pool && !env.stacked pool && pool ∉ env.doomed
  | .addObject pool _ => pool ∈ env.pools
  | .release currentThread object => env.canRelease currentThread object
  | .resume i =>
    match env.draining[i]? with
    | some ⟨currentThread, _, object :: _, _⟩ => env.canRelease currentThread object
    | _ => true
  | .addObjectToCurrent _ _ | .retain _ | .autorelease _ _ | .deallocObject _ => true

structure Pooling (w : Ledger) : Prop where
  live : ∀ t stack, w.env.poolStacks.lookup t = some stack → ∀ pool ∈ stack,
    w.env.live pool = true
  once : ∀ t stack, w.env.poolStacks.lookup t = some stack → stack.Nodup ∧
    ∀ t' stack', w.env.poolStacks.lookup t' = some stack' → t' ≠ t → ∀ pool ∈ stack, pool ∉ stack'
  /-- To drain a pool takes it and the pools above it off their stack, the inner ones first, and
  leaves every other stack. -/
  drain : ∀ currentThread pool w', Use w.env (.release currentThread pool) = true →
    w.step (.release currentThread pool) = .ok w' →
    pool ∈ w.env.pools → w.env.objects.count pool = some .one →
    ∀ t stack, w.env.poolStacks.lookup t = some stack → pool ∈ stack →
      ∃ below above, stack = below ++ pool :: above ∧
        w'.env.poolStacks = w.env.poolStacks.insert t below ∧
        w'.env.draining =
          ⟨currentThread, pool, [], above.reverse ++ [pool]⟩ :: w.env.draining
  /-- Whatever was added is in a pool, in a drain at work, or has been released. -/
  account : ∀ o, w.added o = w.env.inPools o + w.env.inDrains o + w.released o
  /-- When no drain is at work, the drained pools have released what was added to them. -/
  drained : w.env.draining = [] → ∀ o, w.released o = w.added o - w.env.inPools o

structure Kept (env : Env) (added released : Id → ℕ) : Prop where
  live : ∀ t stack, env.poolStacks.lookup t = some stack → ∀ pool ∈ stack,
    pool ∈ env.pools ∧ env.objects.count pool ≠ none
  nodup : ∀ t stack, env.poolStacks.lookup t = some stack → stack.Nodup
  apart : ∀ t t' stack stack', env.poolStacks.lookup t = some stack →
    env.poolStacks.lookup t' = some stack' → t' ≠ t → ∀ pool ∈ stack, pool ∉ stack'
  spared : ∀ t stack, env.poolStacks.lookup t = some stack → ∀ pool ∈ stack, pool ∉ env.doomed
  there : ∀ pool ∈ env.pools, pool ≠ nil ∧ env.objects pool ≠ none
  phantoms : ∀ pool, (env.phantoms pool).objects = []
  account : ∀ o, added o = env.inPools o + env.inDrains o + released o

section

variable {env env' : Env} {added released : Id → ℕ} {pool o obj : Id} {t : ThreadId}

lemma record_apply {account : Id → ℕ} : record account (some obj) o =
    account o + if o = obj then 1 else 0 := by
  rw [record]
  by_cases ho : o = obj
  · subst ho
    rw [update_self, if_pos rfl]
  · rw [update_of_ne ho, if_neg ho, Nat.add_zero]

lemma Kept.withObjects (h : Kept env added released) {objects : Objects}
    (hthere : ∀ pool ∈ env.pools, objects pool ≠ none)
    (hcount : ∀ t stack, env.poolStacks.lookup t = some stack → ∀ pool ∈ stack,
      objects.count pool ≠ none) :
    Kept { env with objects } added released :=
  ⟨fun t stack hs pool hp => ⟨(h.live t stack hs pool hp).1, hcount t stack hs pool hp⟩, h.nodup,
    h.apart, h.spared, fun pool hp => ⟨(h.there pool hp).1, hthere pool hp⟩, h.phantoms, h.account⟩

lemma Kept.allocObject (h : Kept env added released) {ptr : Id}
    (hstep : env.allocObject ptr = .ok env') :
    Kept env' added released ∧ ptr ≠ nil ∧ ptr ∉ env.pools ∧ env'.pools = env.pools ∧
      env'.objects ptr ≠ none := by
  obtain ⟨_, hassert, hstep⟩ := bind_eq_ok.mp hstep
  obtain ⟨hnil, hfree⟩ := assert_eq_ok.mp hassert
  obtain rfl := ok.inj hstep
  have hnot : ptr ∉ env.pools := fun hp => (h.there ptr hp).2 hfree
  have hne : ∀ pool ∈ env.pools, pool ≠ ptr := by
    rintro pool hp rfl
    exact hnot hp
  refine ⟨h.withObjects (fun pool hp => ?_) (fun t stack hs pool hp => ?_), hnil, hnot, rfl, ?_⟩
  · rw [update_of_ne (hne pool hp)]
    exact (h.there pool hp).2
  · obtain ⟨hin, hcount⟩ := h.live t stack hs pool hp
    rw [Objects.count, update_of_ne (hne pool hin)]
    exact hcount
  · dsimp only
    rw [update_self]
    exact some_ne_none _

lemma Kept.allocPool (h : Kept env added released) {ptr : Id}
    (hstep : env.allocWithZone t ptr = .ok env') : Kept env' added released := by
  obtain ⟨env₁, halloc, hstep⟩ := bind_eq_ok.mp hstep
  obtain rfl := ok.inj hstep
  obtain ⟨h₁, hnil, hnot, hpools, hthere⟩ := h.allocObject halloc
  have hlook : env₁.pools.lookup ptr = none := by
    rw [hpools]
    exact lookup_eq_none.mpr hnot
  refine ⟨fun s stack hs pool hp => ?_, h₁.nodup, h₁.apart, h₁.spared, fun pool hp => ?_,
    h₁.phantoms, fun o => ?_⟩
  · obtain ⟨hin, hcount⟩ := h₁.live s stack hs pool hp
    exact ⟨(mem_insert env₁.pools).mpr (.inr hin), hcount⟩
  · obtain rfl | hp := (mem_insert env₁.pools).mp hp
    · exact ⟨hnil, hthere⟩
    · exact h₁.there pool hp
  · rw [h₁.account o, Env.inPools, Env.inPools, sumValues_insert, erase_of_lookup hlook]
    rfl

lemma Kept.init (h : Kept env added released) (hin : pool ∈ env.pools)
    (hcount : env.objects.count pool ≠ none)
    (hfree : ∀ s stack, env.poolStacks.lookup s = some stack → pool ∉ stack)
    (hdoomed : pool ∉ env.doomed) : Kept (env.init t pool) added released := by
  have hold : ∀ p ∈ (env.poolStacks.lookup t).getD [], ∃ stack,
      env.poolStacks.lookup t = some stack ∧ p ∈ stack := by
    intro p hp
    cases hlook : env.poolStacks.lookup t with
    | none =>
      rw [hlook] at hp
      cases hp
    | some stack =>
      rw [hlook] at hp
      exact ⟨stack, rfl, hp⟩
  -- Each pool of a stack after the push was on that stack before, or is the new one.
  have hmem : ∀ s stack, (env.init t pool).poolStacks.lookup s = some stack → ∀ p ∈ stack,
      (p = pool ∧ s = t) ∨ ∃ stack₀, env.poolStacks.lookup s = some stack₀ ∧ p ∈ stack₀ := by
    intro s stack hs p hp
    by_cases hst : s = t
    · subst hst
      rw [Env.init, lookup_insert] at hs
      obtain rfl := some.inj hs
      obtain hp | hp := mem_append.mp hp
      · exact .inr (hold p hp)
      · exact .inl ⟨mem_singleton.mp hp, rfl⟩
    · rw [Env.init, lookup_insert_ne hst] at hs
      exact .inr ⟨stack, hs, hp⟩
  refine ⟨fun s stack hs p hp => ?_, fun s stack hs => ?_, fun s s' stack stack' hs hs' hne p hp => ?_,
    fun s stack hs p hp => ?_, h.there, h.phantoms, h.account⟩
  · obtain ⟨rfl, -⟩ | ⟨stack₀, hs₀, hp₀⟩ := hmem s stack hs p hp
    · exact ⟨hin, hcount⟩
    · exact h.live s stack₀ hs₀ p hp₀
  · by_cases hst : s = t
    · subst hst
      rw [Env.init, lookup_insert] at hs
      obtain rfl := some.inj hs
      apply List.Nodup.append
      · cases hlook : env.poolStacks.lookup s with
        | none => exact nodup_nil
        | some stack => exact h.nodup s stack hlook
      · exact nodup_singleton pool
      · intro p hp hp'
        obtain rfl := mem_singleton.mp hp'
        obtain ⟨stack, hs, hps⟩ := hold p hp
        exact hfree s stack hs hps
    · rw [Env.init, lookup_insert_ne hst] at hs
      exact h.nodup s stack hs
  · intro hp'
    obtain ⟨rfl, rfl⟩ | ⟨stack₀, hs₀, hp₀⟩ := hmem s stack hs p hp
    · obtain ⟨-, rfl⟩ | ⟨stack₁, hs₁, hp₁⟩ := hmem s' stack' hs' p hp'
      · exact hne rfl
      · exact hfree s' stack₁ hs₁ hp₁
    · obtain ⟨rfl, -⟩ | ⟨stack₁, hs₁, hp₁⟩ := hmem s' stack' hs' p hp'
      · exact hfree s stack₀ hs₀ hp₀
      · exact h.apart s s' stack₀ stack₁ hs₀ hs₁ hne p hp₀ hp₁
  · obtain ⟨rfl, -⟩ | ⟨stack₀, hs₀, hp₀⟩ := hmem s stack hs p hp
    · exact hdoomed
    · exact h.spared s stack₀ hs₀ p hp₀

lemma Kept.addObject (h : Kept env added released) (hin : pool ∈ env.pools) :
    Kept (env.addObject pool obj) (record added (some obj)) released := by
  obtain ⟨host, hhost⟩ := isSome_iff_exists.mp (lookup_isSome.mpr hin)
  have hadd : env.addObject pool obj =
      { env with pools := env.pools.insert pool { host with objects := host.objects ++ [obj] } } := by
    rw [Env.addObject, Env.setObjects, Env.borrow, hhost]
  rw [hadd]
  refine ⟨fun s stack hs p hp => ?_, h.nodup, h.apart, h.spared, fun p hp => ?_, h.phantoms,
    fun o => ?_⟩
  · obtain ⟨hp, hcount⟩ := h.live s stack hs p hp
    exact ⟨(mem_insert env.pools).mpr (.inr hp), hcount⟩
  · obtain rfl | hp := (mem_insert env.pools).mp hp
    · exact h.there _ hin
    · exact h.there p hp
  · have hsum := sumValues_erase (f := fun host => host.objects.count o) hhost
    have hcount : (host.objects ++ [obj]).count o =
        host.objects.count o + if o = obj then 1 else 0 := by
      rw [count_append, count_singleton]
      by_cases ho : o = obj
      · simp [ho]
      · have ho' : obj ≠ o := Ne.symm ho
        simp [ho, ho']
    rw [record_apply, h.account o, Env.inPools, Env.inPools, sumValues_insert, ← hsum,
      hcount]
    change _ = _ + env.inDrains o + _
    omega

lemma currentPool_mem (h : Kept env added released) (hp : env.currentPool t = some pool) :
    pool ∈ env.pools := by
  obtain ⟨stack, hs, hlast⟩ := bind_eq_some_iff.mp hp
  exact (h.live t stack hs pool (mem_of_getLast? hlast)).1

lemma Kept.addObjectToCurrent (h : Kept env added released) :
    Kept (env.addObjectToCurrent t obj)
      (record added ((env.currentPool t).map fun _ => obj)) released := by
  cases hp : env.currentPool t with
  | none =>
    have hcurrent : env.addObjectToCurrent t obj = env := by
      unfold Env.currentPool at hp
      simp only [Env.addObjectToCurrent, hp]
    rw [hcurrent]
    exact h
  | some pool =>
    have hmem := currentPool_mem h hp
    have hcurrent : env.addObjectToCurrent t obj = env.addObject pool obj := by
      unfold Env.currentPool at hp
      simp only [Env.addObjectToCurrent, hp]
    rw [hcurrent]
    exact h.addObject hmem

lemma Kept.retain (h : Kept env added released) : Kept (env.retain o) added released := by
  rw [Env.retain]
  split
  · exact h
  · refine h.withObjects (fun p hp => ?_) fun s stack hs p hp => ?_
    · exact mt Objects.incrementRefcount_eq_none.mp (h.there p hp).2
    · exact mt Objects.count_incrementRefcount_eq_none.mp (h.live s stack hs p hp).2

lemma Kept.deallocObject (h : Kept env added released) (hstep : env.deallocObject o = .ok env') :
    Kept env' added released := by
  obtain ⟨_, hassert, hstep⟩ := bind_eq_ok.mp hstep
  have hnot := assert_eq_ok.mp hassert
  split at hstep
  · obtain rfl := ok.inj hstep
    exact h
  · obtain rfl := ok.inj hstep
    have hne : ∀ p ∈ env.pools, p ≠ o := by
      rintro p hp rfl
      exact hnot hp
    refine h.withObjects (fun p hp => ?_) fun s stack hs p hp => ?_
    · rw [update_of_ne (hne p hp)]
      exact (h.there p hp).2
    · obtain ⟨hin, hcount⟩ := h.live s stack hs p hp
      rw [Objects.count, update_of_ne (hne p hin)]
      exact hcount

lemma Kept.withDraining (h : Kept env added released) (draining : List Draining)
    (released' : Id → ℕ) (hdoomed : ∀ p ∈ draining.flatMap Draining.toDrop, p ∈ env.doomed)
    (hsum : ∀ o, (draining.map fun d => d.objects.count o).sum + released' o =
      env.inDrains o + released o) : Kept { env with draining } added released' :=
  ⟨h.live, h.nodup, h.apart, fun s stack hs p hp hd => h.spared s stack hs p hp (hdoomed p hd),
    h.there, h.phantoms, fun o => by
      have haccount := h.account o
      have hs := hsum o
      change added o = env.inPools o + (draining.map fun d => d.objects.count o).sum + released' o
      omega⟩

lemma Kept.perm (h : Kept env added released) {draining : List Draining}
    (hperm : env.draining.Perm draining) : Kept { env with draining } added released := by
  apply h.withDraining draining
  · intro p hp
    exact (hperm.flatMap_right Draining.toDrop).mem_iff.mpr hp
  · intro o
    rw [Env.inDrains, ((hperm.map _).sum_eq : _ = (draining.map fun d => d.objects.count o).sum)]

lemma Kept.cut (h : Kept env added released) {stack : List Id}
    (hstack : env.poolStacks.lookup t = some stack) (index : ℕ) (currentThread : ThreadId)
    (this : Id) :
    Kept { env with
      poolStacks := env.poolStacks.insert t (stack.take index)
      draining := ⟨currentThread, this, [], (stack.drop index).reverse⟩ :: env.draining }
      added released := by
  have hmem : ∀ s stack', (env.poolStacks.insert t (stack.take index)).lookup s = some stack' →
      ∃ stack₀, env.poolStacks.lookup s = some stack₀ ∧ stack'.Sublist stack₀ ∧
        ∀ p ∈ stack', p ∉ stack.drop index := by
    intro s stack' hs
    by_cases hst : s = t
    · subst hst
      rw [lookup_insert] at hs
      obtain rfl := some.inj hs
      refine ⟨stack, hstack, take_sublist index stack, fun p hp hd => ?_⟩
      have hnodup := h.nodup s stack hstack
      rw [← take_append_drop index stack] at hnodup
      exact (nodup_append.mp hnodup).2.2 p hp p hd rfl
    · rw [lookup_insert_ne hst] at hs
      exact ⟨stack', hs, List.Sublist.refl _, fun p hp hd =>
        h.apart s t stack' stack hs hstack (Ne.symm hst) p hp (mem_of_mem_drop hd)⟩
  refine ⟨fun s stack' hs p hp => ?_, fun s stack' hs => ?_,
    fun s s' stack₁ stack₂ hs hs' hne p hp hp' => ?_, fun s stack' hs p hp hd => ?_, h.there,
    h.phantoms, fun o => ?_⟩
  · obtain ⟨stack₀, hs₀, hsub, -⟩ := hmem s stack' hs
    exact h.live s stack₀ hs₀ p (hsub.subset hp)
  · obtain ⟨stack₀, hs₀, hsub, -⟩ := hmem s stack' hs
    exact (h.nodup s stack₀ hs₀).sublist hsub
  · obtain ⟨stack₀, hs₀, hsub, -⟩ := hmem s stack₁ hs
    obtain ⟨stack₀', hs₀', hsub', -⟩ := hmem s' stack₂ hs'
    exact h.apart s s' stack₀ stack₀' hs₀ hs₀' hne p (hsub.subset hp) (hsub'.subset hp')
  · obtain ⟨stack₀, hs₀, hsub, hnot⟩ := hmem s stack' hs
    obtain hd | hd := mem_append.mp hd
    · exact hnot p hp (mem_reverse.mp hd)
    · exact h.spared s stack₀ hs₀ p (hsub.subset hp) hd
  · rw [h.account o]
    simp [Env.inPools, Env.inDrains]

lemma Kept.alone (h : Kept env added released) {this : Id}
    (hfree : ∀ s stack, env.poolStacks.lookup s = some stack → this ∉ stack)
    (currentThread : ThreadId) :
    Kept { env with draining := ⟨currentThread, this, [], [this]⟩ :: env.draining }
      added released := by
  refine ⟨h.live, h.nodup, h.apart, fun s stack hs p hp hd => ?_, h.there, h.phantoms,
    fun o => ?_⟩
  · obtain hd | hd := mem_append.mp hd
    · obtain rfl := mem_singleton.mp hd
      exact hfree s stack hs hp
    · exact h.spared s stack hs p hp hd
  · rw [h.account o]
    simp [Env.inPools, Env.inDrains]

lemma Kept.dealloc (h : Kept env added released) {this : Id} {objects : Objects}
    (hother : ∀ p, p ≠ this → objects.count p = env.objects.count p)
    (hthere : ∀ p, objects p = none ↔ env.objects p = none)
    (hfound : ∀ s stack, env.poolStacks.lookup s = some stack → this ∈ stack →
      s = env.lookupThread t this) :
    Kept (({ env with objects } : Env).dealloc t this) added released := by
  have hobjects : ∀ {env' : Env}, Kept env' added released → env'.objects = env.objects →
      env'.pools = env.pools → (∀ s stack, env'.poolStacks.lookup s = some stack → this ∉ stack) →
      Kept { env' with objects } added released := by
    intro env' h' hobj hpools hfree
    refine h'.withObjects (fun p hp => ?_) fun s stack hs p hp => ?_
    · exact mt (hthere p).mp (hobj ▸ (h'.there p hp).2)
    · have hne : p ≠ this := by
        rintro rfl
        exact hfree s stack hs hp
      rw [hother p hne, ← hobj]
      exact (h'.live s stack hs p hp).2
  have halone : (∀ s stack, env.poolStacks.lookup s = some stack → this ∉ stack) →
      Kept { env with objects, draining := ⟨t, this, [], [this]⟩ :: env.draining }
        added released := fun hfree => hobjects (h.alone hfree t) rfl rfl hfree
  have hlookup : ({ env with objects } : Env).lookupThread t this = env.lookupThread t this := rfl
  rw [Env.dealloc, hlookup]
  dsimp only
  cases hstack : env.poolStacks.lookup (env.lookupThread t this) with
  | none =>
    apply halone
    intro s stack hs hin
    rw [← hfound s stack hs hin, hs] at hstack
    cases hstack
  | some stack =>
    dsimp only
    cases hindex : Vec.rposition (fun pool => decide (pool = this)) stack with
    | none =>
      apply halone
      intro s stack' hs hin
      rw [← hfound s stack' hs hin, hs] at hstack
      obtain rfl := some.inj hstack
      obtain ⟨i, hi⟩ := Vec.exists_rposition (p := fun pool => decide (pool = this)) hin
        (decide_eq_true rfl)
      cases hi.symm.trans hindex
    | some index =>
      obtain ⟨a, ha, hthis⟩ := Vec.rposition_some hindex
      obtain rfl : a = this := of_decide_eq_true hthis
      have hcut := h.cut hstack index t a
      refine hobjects hcut rfl rfl fun s stack' hs hin => ?_
      -- The pool is doomed now, and what is on a stack is not.
      apply hcut.spared s stack' hs a hin
      apply mem_append_left
      rw [mem_reverse]
      obtain ⟨hlt, hget⟩ := List.getElem?_eq_some_iff.mp ha
      rw [drop_eq_getElem_cons hlt, hget]
      exact mem_cons_self

lemma Kept.release (h : Kept env added released)
    (hfound : o ∈ env.pools → env.objects.count o = some .one → ∀ s stack,
      env.poolStacks.lookup s = some stack → o ∈ stack → s = env.lookupThread t o) :
    Kept (env.release t o) added released := by
  have hthere : ∀ p, (env.objects.decrementRefcount o).2 p = none ↔ env.objects p = none :=
    fun p => Objects.decrementRefcount_eq_none
  have hother : ∀ p, p ≠ o → (env.objects.decrementRefcount o).2.count p = env.objects.count p :=
    fun p hp => Objects.count_decrementRefcount_of_ne hp
  -- As long as no pool on a stack loses its count, nothing changes.
  have hstay : (∀ s stack, env.poolStacks.lookup s = some stack → o ∈ stack →
      (env.objects.decrementRefcount o).2.count o ≠ none) →
      Kept { env with objects := (env.objects.decrementRefcount o).2 } added released := by
    intro hcount
    refine h.withObjects (fun p hp => ?_) fun s stack hs p hp => ?_
    · exact mt (hthere p).mp (h.there p hp).2
    · by_cases hpo : p = o
      · subst hpo
        exact hcount s stack hs hp
      · rw [hother p hpo]
        exact (h.live s stack hs p hp).2
  rw [Env.release]
  dsimp only
  obtain ⟨hd, hnone⟩ | ⟨n, hnil, hn, ⟨hone, hd⟩ | ⟨hne, hd⟩⟩ :=
    Objects.decrementRefcount_cases env.objects o
  · rw [if_neg (by rw [hd]; exact fun h => by cases h.1)]
    apply hstay
    intro s stack hs hin
    obtain ⟨hpool, hcount⟩ := h.live s stack hs o hin
    obtain hnil | hnone := hnone
    · exact absurd hnil (h.there o hpool).1
    · exact absurd hnone hcount
  · by_cases hpool : o ∈ env.pools
    · rw [if_pos ⟨by rw [hd], hpool⟩]
      have hn1 : env.objects.count o = some .one := by
        rw [hn]
        obtain ⟨k, hk, hlt⟩ := n
        obtain rfl : k = 1 := hone
        rfl
      exact h.dealloc hother hthere (hfound hpool hn1)
    · rw [if_neg fun h => hpool h.2]
      apply hstay
      intro s stack hs hin
      exact absurd (h.live s stack hs o hin).1 hpool
  · rw [if_neg (by rw [hd]; exact fun h => by cases h.1)]
    apply hstay
    intro s stack hs hin
    obtain ⟨m, hm, -⟩ | ⟨-, hone⟩ := Objects.count_decrementRefcount_self hnil hn
    · rw [hm]
      exact some_ne_none m
    · exact absurd hone hne

lemma borrow_of_none (h : Kept env added released) (hpool : env.pools.lookup pool = none) :
    (env.borrow pool).objects = [] := by
  rw [Env.borrow, hpool]
  exact h.phantoms pool

lemma draining_takeAndDealloc : (env.takeAndDealloc pool).2.draining = env.draining := by
  simp only [Env.takeAndDealloc, Env.setObjects]
  split <;> rfl

lemma Kept.takeAndDealloc (h : Kept env added released) (d : Draining)
    (hd : d.objects = (env.takeAndDealloc pool).1)
    (hfree : ∀ s stack, env.poolStacks.lookup s = some stack → pool ∉ stack)
    (hdrop : ∀ s stack, env.poolStacks.lookup s = some stack → ∀ p ∈ stack, p ∉ d.toDrop) :
    Kept { (env.takeAndDealloc pool).2 with
      draining := d :: (env.takeAndDealloc pool).2.draining } added released := by
  rw [draining_takeAndDealloc]
  have hspared : ∀ s stack, env.poolStacks.lookup s = some stack → ∀ p ∈ stack,
      p ∉ d.toDrop ++ env.doomed := by
    intro s stack hs p hp hin
    obtain hin | hin := mem_append.mp hin
    · exact hdrop s stack hs p hp hin
    · exact h.spared s stack hs p hp hin
  have hne : ∀ s stack, env.poolStacks.lookup s = some stack → ∀ p ∈ stack, p ≠ pool := by
    rintro s stack hs p hp rfl
    exact hfree s stack hs hp
  cases hpool : env.pools.lookup pool with
  | none =>
    -- It is gone already: only a pool that was faked is cleared.
    have hobjects := borrow_of_none h hpool
    have htake : env.takeAndDealloc pool = ((env.borrow pool).objects,
        { env with
          objects := if pool = nil then env.objects else update env.objects pool none
          pools := if pool = nil then env.pools else env.pools.erase pool
          phantoms := update env.phantoms pool
            { env.phantoms pool with objects := [] } }) := by
      simp only [Env.takeAndDealloc, Env.setObjects, hpool]
    rw [htake] at hd ⊢
    rw [erase_of_lookup hpool, ite_self]
    refine ⟨fun s stack hs p hp => ⟨(h.live s stack hs p hp).1, ?_⟩, h.nodup, h.apart, hspared,
      fun p hp => ⟨(h.there p hp).1, ?_⟩, fun p => ?_, fun o => ?_⟩
    · dsimp only
      split
      · exact (h.live s stack hs p hp).2
      · rw [Objects.count, update_of_ne (hne s stack hs p hp)]
        exact (h.live s stack hs p hp).2
    · dsimp only
      split
      · exact (h.there p hp).2
      · rw [update_of_ne]
        · exact (h.there p hp).2
        · rintro rfl
          exact lookup_eq_none.mp hpool hp
    · dsimp only
      by_cases hp : p = pool
      · rw [hp, update_self]
      · rw [update_of_ne hp]
        exact h.phantoms p
    · rw [h.account o]
      simp [Env.inPools, Env.inDrains, hd, hobjects]
  | some host =>
    have hin : pool ∈ env.pools := lookup_isSome.mp (by rw [hpool]; rfl)
    have hnil : pool ≠ nil := (h.there pool hin).1
    have htake : env.takeAndDealloc pool = (host.objects,
        { env with
          objects := update env.objects pool none
          pools := (env.pools.insert pool { host with objects := [] }).erase pool }) := by
      simp only [Env.takeAndDealloc, Env.setObjects, Env.borrow, hpool, if_neg hnil]
    rw [htake] at hd ⊢
    have hpools : ∀ p, p ∈ (env.pools.insert pool { host with objects := [] }).erase pool →
        p ≠ pool ∧ p ∈ env.pools := by
      intro p hp
      obtain ⟨hp, hin⟩ := mem_erase.mp hp
      exact ⟨hp, ((mem_insert env.pools).mp hin).resolve_left hp⟩
    refine ⟨fun s stack hs p hp => ⟨?_, ?_⟩, h.nodup, h.apart, hspared, fun p hp => ?_, h.phantoms,
      fun o => ?_⟩
    · exact mem_erase.mpr ⟨hne s stack hs p hp,
        (mem_insert env.pools).mpr (.inr (h.live s stack hs p hp).1)⟩
    · dsimp only
      rw [Objects.count, update_of_ne (hne s stack hs p hp)]
      exact (h.live s stack hs p hp).2
    · obtain ⟨hp, hin⟩ := hpools p hp
      refine ⟨(h.there p hin).1, ?_⟩
      dsimp only
      rw [update_of_ne hp]
      exact (h.there p hin).2
    · have herase := sumValues_erase (f := fun host => host.objects.count o)
        (lookup_insert (b := { host with objects := [] }) env.pools (a := pool))
      have hinsert := sumValues_insert (f := fun host => host.objects.count o) (t := env.pools)
        (k := pool) (b := { host with objects := [] })
      have hold := sumValues_erase (f := fun host => host.objects.count o) hpool
      rw [h.account o]
      simp only [Env.inPools, Env.inDrains, map_cons, sum_cons, hd]
      omega

lemma doomed_cons {d : Draining} {rest : List Draining} {p : Id} :
    p ∈ ({ env with draining := d :: rest } : Env).doomed ↔
      p ∈ d.toDrop ∨ p ∈ rest.flatMap Draining.toDrop := mem_append

lemma Kept.drain {d : Draining} {rest : List Draining}
    (h : Kept { env with draining := d :: rest } added released)
    (hfound : ∀ o ∈ d.objects.head?, o ∈ env.pools → env.objects.count o = some .one → ∀ s stack,
      env.poolStacks.lookup s = some stack → o ∈ stack → s = env.lookupThread d.currentThread o) :
    Kept (({ env with draining := rest } : Env).drain d) added
      (record released d.objects.head?) := by
  obtain ⟨currentThread, this, objects, toDrop⟩ := d
  cases objects with
  | cons object objects =>
    have hnext : Kept { env with draining := ⟨currentThread, this, objects, toDrop⟩ :: rest } added
        (record released (some object)) := by
      refine h.withDraining (⟨currentThread, this, objects, toDrop⟩ :: rest)
        (record released (some object)) (fun p hp => hp) fun o => ?_
      rw [record_apply, Env.inDrains]
      simp only [map_cons, sum_cons, count_cons]
      by_cases ho : o = object
      · subst ho
        simp only [beq_self_eq_true, if_true]
        omega
      · have ho' : ¬ (object == o) = true := fun h => ho (eq_of_beq h).symm
        rw [if_neg ho, if_neg ho']
        omega
    exact hnext.release (hfound object rfl)
  | nil =>
    cases toDrop with
    | nil => exact h.withDraining rest released (fun p hp => hp) fun o => by simp [Env.inDrains]
    | cons pool toDrop =>
      have hfree : ∀ s stack, env.poolStacks.lookup s = some stack → pool ∉ stack :=
        fun s stack hs hp => h.spared s stack hs pool hp mem_cons_self
      have hdrop : ∀ s stack, env.poolStacks.lookup s = some stack → ∀ p ∈ stack, p ∉ toDrop :=
        fun s stack hs p hp hin =>
          h.spared s stack hs p hp (mem_append_left _ (mem_cons_of_mem _ hin))
      have hrest : Kept { env with draining := rest } added released :=
        h.withDraining rest released (fun p hp => doomed_cons.mpr (.inr hp))
          fun o => by simp [Env.inDrains]
      have hdec : Kept { env with
          draining := rest, objects := (env.objects.decrementRefcount pool).2 }
          added released := by
        refine hrest.withObjects (fun p hp => ?_) fun s stack hs p hp => ?_
        · exact mt Objects.decrementRefcount_eq_none.mp (hrest.there p hp).2
        · have hne : p ≠ pool := by
            rintro rfl
            exact hfree s stack hs hp
          rw [Objects.count_decrementRefcount_of_ne hne]
          exact (hrest.live s stack hs p hp).2
      rw [Env.drain]
      by_cases hthis : pool = this
      · rw [if_pos hthis]
        exact hrest.takeAndDealloc ⟨currentThread, this, _, toDrop⟩ rfl hfree hdrop
      · rw [if_neg hthis]
        exact hdec.takeAndDealloc ⟨currentThread, this, _, toDrop⟩ rfl hfree hdrop

end

section

variable {env env' : Env} {added released : Id → ℕ} {o : Id} {t : ThreadId} {r : Request}
  {w w' : Ledger}

lemma found_of_canRelease (h : env.canRelease t o = true) :
    o ∈ env.pools → env.objects.count o = some .one → ∀ s stack,
      env.poolStacks.lookup s = some stack → o ∈ stack → s = env.lookupThread t o := by
  intro hpool hone s stack hs hin
  have hall : ∀ e ∈ env.poolStacks.entries, o ∉ e.2 ∨ e.1 = env.lookupThread t o := by
    simpa [Env.canRelease, hpool, hone] using h
  exact (hall ⟨s, stack⟩ (mem_entries_iff.mpr hs)).resolve_left (not_not.mpr hin)

lemma live_iff {pool : Id} :
    env.live pool = true ↔ pool ∈ env.pools ∧ env.objects.count pool ≠ none := by
  rw [Env.live, Bool.and_eq_true, decide_eq_true_eq, isSome_iff_ne_none]

lemma not_stacked {pool : Id} (h : env.stacked pool = false) :
    ∀ s stack, env.poolStacks.lookup s = some stack → pool ∉ stack := by
  intro s stack hs hin
  have hany : env.stacked pool = true :=
    any_eq_true.mpr ⟨⟨s, stack⟩, mem_entries_iff.mpr hs, decide_eq_true hin⟩
  cases h.symm.trans hany

lemma Kept.resume (h : Kept env added released) {i : ℕ} (huse : Use env (.resume i) = true)
    (hstep : env.resume i = .ok env') :
    Kept env' added (record released (releases env (.resume i))) := by
  obtain ⟨d, hd, hstep⟩ := bind_eq_ok.mp hstep
  rw [unwrap_eq_ok] at hd
  obtain rfl := ok.inj hstep
  have hperm : env.draining.Perm (d :: env.draining.eraseIdx i) := by
    obtain ⟨hi, rfl⟩ := List.getElem?_eq_some_iff.mp hd
    exact (getElem_cons_eraseIdx_perm hi).symm
  have hreleases : releases env (.resume i) = d.objects.head? := by rw [releases, hd]; rfl
  rw [hreleases]
  apply (h.perm hperm).drain
  intro o ho
  obtain ⟨currentThread, this, objects, toDrop⟩ := d
  cases objects with
  | nil => cases ho
  | cons object objects =>
    obtain rfl := some.inj ho
    simp only [Use, hd] at huse
    exact found_of_canRelease huse

lemma Kept.step (h : Kept env added released) (huse : Use env r = true)
    (hstep : env.step r = .ok env') :
    Kept env' (record added (adds env r)) (record released (releases env r)) := by
  cases r with
  | allocObject ptr => exact (h.allocObject hstep).1
  | allocPool currentThread ptr => exact h.allocPool hstep
  | init currentThread pool =>
    obtain rfl := ok.inj hstep
    obtain ⟨⟨hlive, hfree⟩, hdoomed⟩ : (env.live pool = true ∧ env.stacked pool = false) ∧
        pool ∉ env.doomed := by simpa [Use] using huse
    obtain ⟨hin, hcount⟩ := live_iff.mp hlive
    exact h.init hin hcount (not_stacked hfree) hdoomed
  | addObject pool obj =>
    obtain rfl := ok.inj hstep
    exact h.addObject (of_decide_eq_true huse)
  | addObjectToCurrent currentThread obj =>
    obtain rfl := ok.inj hstep
    exact h.addObjectToCurrent
  | retain object =>
    obtain rfl := ok.inj hstep
    exact h.retain
  | autorelease currentThread object =>
    obtain rfl := ok.inj hstep
    rw [Env.autorelease, adds]
    by_cases hpool : object ∈ env.pools
    · rw [if_pos hpool, if_pos hpool]
      exact h
    · rw [if_neg hpool, if_neg hpool]
      exact h.addObjectToCurrent
  | release currentThread object =>
    obtain rfl := ok.inj hstep
    exact h.release (found_of_canRelease huse)
  | deallocObject object => exact h.deallocObject hstep
  | resume i => exact h.resume huse hstep

lemma kept_start : Kept Ledger.start.env Ledger.start.added Ledger.start.released := by
  refine ⟨?_, ?_, ?_, ?_, ?_, fun _ => rfl, fun _ => rfl⟩
  · exact fun _ _ h => by cases h
  · exact fun _ _ h => by cases h
  · exact fun _ _ _ _ h => by cases h
  · exact fun _ _ h => by cases h
  · exact fun _ h => absurd h (notMem_empty _)

lemma release_stacked (huse : env.canRelease t o = true) (hpool : o ∈ env.pools)
    (hone : env.objects.count o = some .one) (hnil : o ≠ nil) {s : ThreadId} {stack : List Id}
    (hs : env.poolStacks.lookup s = some stack) (hin : o ∈ stack) :
    ∃ below above, stack = below ++ o :: above ∧
      (env.release t o).poolStacks = env.poolStacks.insert s below ∧
      (env.release t o).draining = ⟨t, o, [], above.reverse ++ [o]⟩ :: env.draining := by
  have hthread := found_of_canRelease huse hpool hone s stack hs hin
  obtain ⟨index, hindex⟩ := Vec.exists_rposition (p := fun pool => decide (pool = o)) hin
    (decide_eq_true rfl)
  obtain ⟨a, ha, hao⟩ := Vec.rposition_some hindex
  obtain rfl : a = o := of_decide_eq_true hao
  obtain ⟨hlt, hget⟩ := List.getElem?_eq_some_iff.mp ha
  have hdrop : stack.drop index = a :: stack.drop (index + 1) := by
    rw [drop_eq_getElem_cons hlt, hget]
  have hdec : (env.objects.decrementRefcount a).1 = true := by
    obtain ⟨-, hno⟩ | ⟨n, -, hn, ⟨-, hd⟩ | ⟨hne, -⟩⟩ :=
      Objects.decrementRefcount_cases env.objects a
    · obtain hno | hno := hno
      · exact absurd hno hnil
      · cases hno.symm.trans hone
    · rw [hd]
    · obtain rfl := some.inj (hn.symm.trans hone)
      exact absurd rfl hne
  have hrelease : env.release t a =
      { env with
        objects := (env.objects.decrementRefcount a).2
        poolStacks := env.poolStacks.insert s (stack.take index)
        draining := ⟨t, a, [], (stack.drop index).reverse⟩ :: env.draining } := by
    have hlookup : ({ env with objects := (env.objects.decrementRefcount a).2 } : Env).lookupThread t a
        = s := hthread.symm
    rw [Env.release]
    dsimp only
    rw [if_pos ⟨hdec, hpool⟩, Env.dealloc, hlookup]
    simp only [hs, hindex]
  refine ⟨stack.take index, stack.drop (index + 1), ?_, ?_, ?_⟩
  · rw [← hdrop, take_append_drop]
  · rw [hrelease]
  · rw [hrelease, hdrop, reverse_cons]

lemma Kept.pooling (h : Kept w.env w.added w.released) : Pooling w := by
  refine ⟨fun s stack hs pool hp => ?_, fun s stack hs => ⟨h.nodup s stack hs, ?_⟩, ?_, h.account,
    fun hidle o => ?_⟩
  · exact live_iff.mpr (h.live s stack hs pool hp)
  · exact fun s' stack' hs' hne pool hp => h.apart s s' stack stack' hs hs' hne pool hp
  · intro currentThread pool w' huse hstep hpool hone s stack hs hin
    obtain ⟨env', henv, rfl⟩ := map_eq_ok.mp hstep
    obtain rfl := ok.inj henv
    exact release_stacked huse hpool hone (h.there pool hpool).1 hs hin
  · have haccount := h.account o
    rw [Env.inDrains, hidle, map_nil, sum_nil] at haccount
    omega

/-- Over every run of the threads in which pools are used as they are meant to be, from inside
`-dealloc` methods too. -/
theorem pooling_of_use (rs : List Request) (w : Ledger)
    (huse : Along Ledger.step (fun w r => Use w.env r = true) Ledger.start rs)
    (hrun : run Ledger.step Ledger.start rs = .ok w) : Pooling w := by
  have hkept : Kept w.env w.added w.released :=
    run_preserves (I := fun w => Kept w.env w.added w.released)
      (fun _ _ _ h huse hstep => by
        obtain ⟨env', henv, rfl⟩ := map_eq_ok.mp hstep
        exact h.step huse henv) kept_start huse hrun
  exact hkept.pooling

theorem pooling_of_use_nested : ∃ w, run Ledger.step Ledger.start
      [.allocPool 1 100, .init 1 100, .allocObject 300, .autorelease 1 300, .allocPool 1 200,
        .init 1 200, .autorelease 1 300, .retain 300, .release 1 100, .resume 0, .resume 0,
        .resume 0, .resume 0, .resume 0] = .ok w ∧ Pooling w := by
  have hcheck : succeedsWith (fun _ => true) (run Ledger.step Ledger.start
      [.allocPool 1 100, .init 1 100, .allocObject 300, .autorelease 1 300, .allocPool 1 200,
        .init 1 200, .autorelease 1 300, .retain 300, .release 1 100, .resume 0, .resume 0,
        .resume 0, .resume 0, .resume 0]) = true := by
    decide
  obtain ⟨w, hrun, -⟩ := exists_of_succeedsWith hcheck
  exact ⟨w, hrun, pooling_of_use _ w (by decide) hrun⟩

theorem not_pooling : ¬ ∀ (rs : List Request) (w : Ledger),
    run Ledger.step Ledger.start rs = .ok w → ∀ t stack,
      w.env.poolStacks.lookup t = some stack → ∀ pool ∈ stack, w.env.live pool = true := by
  intro h
  have hcheck : succeedsWith (fun w => decide (w.env.poolStacks.lookup 2 = some [200] ∧
      w.env.live 200 = false)) (run Ledger.step Ledger.start
        [.allocPool 1 100, .init 1 100, .allocPool 1 200, .init 2 200, .release 2 200,
          .resume 0]) = true := by
    decide
  obtain ⟨w, hrun, hw⟩ := exists_of_succeedsWith hcheck
  obtain ⟨hstack, hdead⟩ := of_decide_eq_true hw
  cases hdead.symm.trans (h _ w hrun 2 _ hstack 200 List.mem_cons_self)

end

end TouchHle.Objc.AutoreleasePool
