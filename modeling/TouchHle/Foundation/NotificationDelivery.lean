import TouchHle.Lib.Tally
import TouchHle.Foundation.NotificationCenter

/-! What a notification center delivers, compared with a center that keeps its registrations in one
list. -/

namespace TouchHle.Foundation

open Lib Objc NotificationCenter Function
open scoped List

namespace NotificationCenter

variable {c c' : NotificationCenter} {p : Observer → Bool} {key : String} {o : Observer}

def total (c : NotificationCenter) (f : Observer → ℕ) : ℕ :=
  (c.names.map fun key => ((c.observers key).map f).sum).sum

structure Removes (p : Observer → Bool) (keys : List String) (c c' : NotificationCenter)
    (removed : List Observer) : Prop where
  names : c'.names = c.names
  cfObservers : c'.cfObservers = c.cfObservers
  other : ∀ key ∉ keys, c'.observers key = c.observers key
  left : ∀ key ∈ keys, ∀ o, o ∈ c'.observers key ↔ o ∈ c.observers key ∧ p o = false
  nodup : ∀ key, (c.observers key).Nodup → (c'.observers key).Nodup
  total : ∀ f, (removed.map f).sum + c'.total f = c.total f

lemma removeFrom_ok {keys : List String} (hkeys : keys.Nodup) (hnames : c.names.Nodup)
    (hsub : ∀ key ∈ keys, key ∈ c.names) :
    ∃ c' removed, removeFrom p keys c = .ok (c', removed) ∧ Removes p keys c c' removed := by
  induction keys generalizing c with
  | nil =>
    refine ⟨c, [], rfl, rfl, rfl, fun _ _ => rfl, ?_, fun _ => id, fun f => by simp⟩
    intro key hkey
    cases hkey
  | cons key keys ih =>
    obtain ⟨hkey, hkeys⟩ := List.nodup_cons.mp hkeys
    obtain ⟨left, gone, hloop, hall, hgone, hleft⟩ :=
      Vec.swapRemoveIf_ok p (c.observers key).length 0 (c.observers key) [] (by omega) (by simp)
    obtain ⟨d, hd⟩ : ∃ d, d = { c with observers := update c.observers key left } := ⟨_, rfl⟩
    have hat : d.observers key = left := by rw [hd]; exact update_self ..
    have hoff : ∀ k ≠ key, d.observers k = c.observers k := by
      intro k hk
      rw [hd]
      exact update_of_ne hk ..
    obtain ⟨c', removed, hrest, hremoves⟩ := ih (c := d) hkeys (hd ▸ hnames)
      fun k hk => hd ▸ hsub k (List.mem_cons_of_mem _ hk)
    refine ⟨c', gone ++ removed, ?_, ?_⟩
    · rw [removeFrom, removeObserversInternal, hloop, ok_bind, ← hd, hrest]
      rfl
    · refine ⟨hremoves.names.trans (hd ▸ rfl), hremoves.cfObservers.trans (hd ▸ rfl), ?_, ?_, ?_, ?_⟩
      · intro k hk
        obtain ⟨hne, hk⟩ := not_or.mp (List.mem_cons.not.mp hk)
        rw [hremoves.other k hk, hoff k hne]
      · intro k hk o
        rcases List.mem_cons.mp hk with rfl | hk
        · rw [hremoves.other k hkey, hat, ← hall.mem_iff, List.mem_append]
          constructor
          · exact fun ho => ⟨.inr ho, hleft o ho⟩
          · rintro ⟨ho | ho, hp⟩
            · exact absurd (hgone o ho) (by simp [hp])
            · exact ho
        · rw [hremoves.left k hk, hoff k fun heq => hkey (heq ▸ hk)]
      · intro k hnodup
        apply hremoves.nodup
        by_cases hk : k = key
        · rw [hk, hat]
          exact (List.nodup_append.mp (hall.nodup_iff.mpr (hk ▸ hnodup))).2.1
        · rwa [hoff k hk]
      · intro f
        have hd' : d.total f + ((c.observers key).map f).sum = c.total f + (left.map f).sum := by
          rw [hd]
          exact sum_map_update (fun os => (os.map f).sum) left hnames (hsub key List.mem_cons_self)
        have hsum : (gone.map f).sum + (left.map f).sum = ((c.observers key).map f).sum := by
          rw [← List.sum_append, ← List.map_append]
          exact (hall.map f).sum_eq
        have htotal := hremoves.total f
        rw [List.map_append, List.sum_append]
        omega

lemma mem_push {o' : Observer} {key' : String} :
    o' ∈ (c.push key o).observers key' ↔ o' ∈ c.observers key' ∨ key' = key ∧ o' = o := by
  change o' ∈ update c.observers key (c.observers key ++ [o]) key' ↔ _
  by_cases heq : key' = key
  · rw [heq, update_self, List.mem_append, List.mem_singleton]
    simp
  · rw [update_of_ne heq]
    simp [heq]

lemma names_push (c : NotificationCenter) (key : String) (o : Observer) :
    key ∈ (c.push key o).names ∧ (∀ k ∈ c.names, k ∈ (c.push key o).names) ∧
    (c.names.Nodup → (c.push key o).names.Nodup) := by
  unfold push
  dsimp only
  split_ifs with hkey
  · exact ⟨hkey, fun _ => id, id⟩
  · refine ⟨by simp, fun k hk => List.mem_append_left _ hk, fun hnodup => ?_⟩
    exact List.nodup_append_comm.mp (List.nodup_cons.mpr ⟨hkey, hnodup⟩)

lemma nodup_keysFor {name : Option String} (h : c.names.Nodup) : (c.keysFor name).Nodup := by
  cases name with
  | none => exact h
  | some key =>
    unfold keysFor
    dsimp only
    split_ifs
    · exact List.nodup_singleton _
    · exact List.nodup_nil

end NotificationCenter

namespace Registration

def name : Registration → Option String
  | .observer o => o.name
  | .cfObserver cf => cf.name

def object : Registration → Id
  | .observer o => o.object
  | .cfObserver cf => cf.object

def number : Registration → ℕ
  | .observer o => o.registration
  | .cfObserver cf => cf.registration

def accepts (n : Notification) (r : Registration) : Bool :=
  (r.name = none || r.name = n.name) && n.passes r.object

end Registration

/-- The registrations in the order in which they were made, and the postings in progress with the
registrations whose turn has not come. -/
structure Subscriptions where
  registered : List Registration
  postings : List (Notification × List Registration)
  invoked : List (Registration × Notification)
  registrations : ℕ

namespace Subscriptions

def start : Subscriptions := ⟨[], [], [], 0⟩

variable (s : Subscriptions)

def register (r : Registration) : Subscriptions :=
  { s with registered := s.registered ++ [r], registrations := s.registrations + 1 }

def unregister (p : Registration → Bool) : Subscriptions :=
  { s with registered := s.registered.filter fun r => !p r }

def turn (n : Notification) : List Registration → Subscriptions
  | [] => s
  | r :: rs =>
    if r ∈ s.registered then
      { s with postings := (n, rs) :: s.postings, invoked := (r, n) :: s.invoked }
    else turn n rs

def selects (observer : Id) (name : Option String) (object : Id) : Registration → Bool
  | .observer o => o.selects observer object && (name = none || o.name = name)
  | .cfObserver _ => false

def selectsCf (observer : Id) (name : Option String) (object : Id) : Registration → Bool
  | .observer _ => false
  | .cfObserver cf =>
    cf.observer = observer && (name = none || cf.name = name) && (object = nil || object = cf.object)

def step (s : Subscriptions) : NotificationCall → Subscriptions
  | .addObserver observer selector name object =>
    s.register (.observer ⟨observer, some selector, object, nil, name, s.registrations⟩)
  | .addObserverForName name object token copied =>
    s.register (.observer ⟨token, none, object, copied, name, s.registrations⟩)
  | .removeObserver observer name object => s.unregister (selects observer name object)
  | .addCfObserver observer callback name object =>
    s.register (.cfObserver ⟨observer, callback, name, object, s.registrations⟩)
  | .removeCfObserver observer name object => s.unregister (selectsCf observer name object)
  | .removeEveryCfObserver observer => s.unregister (selectsCf observer none nil)
  | .postNotification n => s.turn n (s.registered.filter (Registration.accepts n))
  | .dealloc => { s with registered := [] }
  | .ret =>
    match s.postings with
    | [] => s
    | (n, rs) :: postings => { s with postings }.turn n rs

end Subscriptions

def due (n : Notification) (observers : List Observer) (cfObservers : List CfObserver) :
    List Registration :=
  (observers.filter fun o => n.passes o.object).map .observer ++
    (cfObservers.filter fun cf => n.passes cf.object).map .cfObserver

def Observer.Invocable (client : NotificationClient) (o : Observer) : Prop :=
  (o.block ≠ nil → client.nullInvoke o.block = false) ∧ (o.block = nil → o.selector ≠ none)

def Posting.remaining (p : Posting) : List Registration :=
  due p.notification p.observers p.cfObservers

namespace NotificationWorld

variable {client : NotificationClient} {w t : NotificationWorld} {s : Subscriptions} {n : Notification}
  {os : List Observer} {cfs : List CfObserver}

def filed (w : NotificationWorld) : NotificationCenter := w.center.getD .new

def Registered (w : NotificationWorld) : Registration → Prop
  | .observer o => ∃ key, o ∈ w.filed.observers key
  | .cfObserver cf => cf ∈ w.filed.cfObservers

def Live (w : NotificationWorld) : NotificationCall → Prop
  | .ret => w.postings ≠ []
  | _ => w.center ≠ none

def Awaits (w : NotificationWorld) (r : Registration) : Prop := ∃ p ∈ w.postings, r ∈ p.remaining

def Spares (w : NotificationWorld) (removed : Registration → Bool) : Prop :=
  ∀ p ∈ w.postings, ∀ r ∈ p.remaining, removed r = false

instance {removed : Registration → Bool} : Decidable (w.Spares removed) :=
  inferInstanceAs (Decidable (∀ p ∈ w.postings, ∀ r ∈ p.remaining, removed r = false))

lemma Spares.of_awaits {removed : Registration → Bool} {r : Registration} (h : w.Spares removed)
    (hr : w.Awaits r) : removed r = false := by
  obtain ⟨p, hp, hin⟩ := hr
  exact h p hp r hin

/-- A call that the center treats as it should: no registration is ignored; no removal is for a nil
observer, or for the empty string while the observer is registered for any name, or for any name while the CF observer is
registered for one; nothing is removed that a posting in progress has not come to; and what is posted
is due in the order of registration, and not to observers of the empty string. -/
def Orderly (client : NotificationClient) (w : NotificationWorld) : NotificationCall → Prop
  | .addObserver _ selector name _ => ¬ (name = none ∧ client.ignores selector)
  | .addObserverForName _ _ _ copied => copied ≠ nil ∧ client.nullInvoke copied = false
  | .removeObserver observer name object =>
    observer ≠ nil ∧ (name = some "" → ∀ o ∈ w.filed.observers "", o.selects observer object → o.name = some "") ∧
      w.Spares (Subscriptions.selects observer name object)
  | .addCfObserver .. => True
  | .removeCfObserver observer name object =>
    (name = none → ∀ cf ∈ w.filed.cfObservers,
      Subscriptions.selectsCf observer none object (.cfObserver cf) → cf.name = none) ∧
      w.Spares (Subscriptions.selectsCf observer name object)
  | .removeEveryCfObserver observer => w.Spares (Subscriptions.selectsCf observer none nil)
  | .postNotification n =>
    (∀ o ∈ w.filed.observers "", n.passes o.object → o.name = some "" → n.name = some "") ∧
      (n.name = none → ∀ cf ∈ w.filed.cfObservers, n.passes cf.object → cf.name ≠ some "") ∧
      (due n (w.filed.snapshot n.name).1 (w.filed.snapshot n.name).2).Pairwise
        fun r r' => r.number < r'.number
  | .dealloc => w.Spares fun _ => true
  | .ret => True

instance decidableLive : ∀ call, Decidable (w.Live call)
  | .ret => inferInstanceAs (Decidable (_ ≠ _))
  | .addObserver .. | .addObserverForName .. | .removeObserver .. | .addCfObserver ..
  | .removeCfObserver .. | .removeEveryCfObserver .. | .postNotification .. | .dealloc =>
    inferInstanceAs (Decidable (¬ w.center = none))

instance decidableOrderly : ∀ call, Decidable (w.Orderly client call)
  | .addObserver .. => inferInstanceAs (Decidable (¬ (_ ∧ _)))
  | .addObserverForName .. => inferInstanceAs (Decidable (_ ∧ _))
  | .removeObserver .. => inferInstanceAs (Decidable (_ ∧ (_ → _) ∧ _))
  | .removeCfObserver .. => inferInstanceAs (Decidable ((_ → _) ∧ _))
  | .removeEveryCfObserver _ => inferInstanceAs (Decidable (w.Spares _))
  | .postNotification _ => inferInstanceAs (Decidable (_ ∧ (_ → _) ∧ _))
  | .dealloc => inferInstanceAs (Decidable (w.Spares _))
  | .addCfObserver .. | .ret => .isTrue trivial

structure Agrees (client : NotificationClient) (w : NotificationWorld) (s : Subscriptions) : Prop where
  observers : ∀ o, o ∈ w.filed.observers (nameKey o.name) ↔ .observer o ∈ s.registered
  cfObservers : ∀ cf, cf ∈ w.filed.cfObservers ↔ .cfObserver cf ∈ s.registered
  filed : ∀ key, ∀ o ∈ w.filed.observers key, nameKey o.name = key
  names : w.filed.names.Nodup
  named : ∀ key, ∀ o ∈ w.filed.observers key, key ∈ w.filed.names
  invocable : ∀ key, ∀ o ∈ w.filed.observers key, o.Invocable client
  ordered : s.registered.Pairwise fun r r' => r.number < r'.number
  numbered : ∀ r ∈ s.registered, r.number < s.registrations
  registrations : w.registrations = s.registrations
  postings : w.postings.map (fun p => (p.notification, p.remaining)) = s.postings
  callable : ∀ p ∈ w.postings, ∀ o ∈ p.observers, o.Invocable client
  awaited : ∀ r, w.Awaits r → r ∈ s.registered
  invoked : w.invoked = s.invoked

lemma agrees_start : Agrees client .start .start where
  observers o := by simp [NotificationWorld.start, NotificationWorld.filed, new, Subscriptions.start]
  cfObservers o := by simp [NotificationWorld.start, NotificationWorld.filed, new, Subscriptions.start]
  filed := by rintro _ _ ⟨⟩
  names := List.nodup_nil
  named := by rintro _ _ ⟨⟩
  invocable := by rintro _ _ ⟨⟩
  ordered := List.Pairwise.nil
  numbered := by rintro _ ⟨⟩
  registrations := rfl
  postings := rfl
  callable := by rintro _ ⟨⟩
  awaited := by rintro _ ⟨_, ⟨⟩, _⟩
  invoked := rfl

lemma Agrees.registered_iff (ha : Agrees client w s) (r : Registration) :
    w.Registered r ↔ r ∈ s.registered := by
  cases r with
  | observer o =>
    rw [← ha.observers]
    constructor
    · rintro ⟨key, hin⟩
      exact (ha.filed key o hin).symm ▸ hin
    · exact fun hin => ⟨_, hin⟩
  | cfObserver cf => exact ha.cfObservers cf

lemma deliverCf_cases (w : NotificationWorld) (n : Notification) (cfs : List CfObserver) :
    ((w.deliverCf n cfs) = w ∧ due n [] cfs = []) ∨
    ∃ cf rest, due n [] cfs = .cfObserver cf :: due n [] rest ∧
      w.deliverCf n cfs = w.invoke n (.cfObserver cf) [] rest := by
  induction cfs with
  | nil => exact .inl ⟨rfl, rfl⟩
  | cons cf cfs ih =>
    rw [deliverCf]
    by_cases hpass : n.passes cf.object
    · right
      refine ⟨cf, cfs, ?_, by simp [hpass]⟩
      simp [due, hpass]
    · have hdue : due n [] (cf :: cfs) = due n [] cfs := by simp [due, hpass]
      rw [hdue, if_pos (by simpa using hpass)]
      exact ih

lemma deliver_cases (hos : ∀ o ∈ os, o.Invocable client)
    (h : w.deliver client n cfs os = .ok t) :
    t.center = w.center ∧ t.registrations = w.registrations ∧
      ((due n os cfs = [] ∧ t.postings = w.postings ∧ t.invoked = w.invoked) ∨
        ∃ r os' cfs', due n os cfs = r :: due n os' cfs' ∧ (∀ o ∈ os', o ∈ os) ∧
          t.postings = ⟨n, r, os', cfs'⟩ :: w.postings ∧ t.invoked = (r, n) :: w.invoked) := by
  have hrefer : ∀ o, (w.refer .retain o).center = w.center ∧
      (w.refer .retain o).registrations = w.registrations ∧
      (w.refer .retain o).postings = w.postings ∧ (w.refer .retain o).invoked = w.invoked := by
    intro o
    simp
  induction os with
  | nil =>
    obtain rfl := Except.ok.inj h
    rcases w.deliverCf_cases n cfs with ⟨heq, hdue⟩ | ⟨cf, rest, hdue, heq⟩
    · rw [heq]
      exact ⟨rfl, rfl, .inl ⟨hdue, rfl, rfl⟩⟩
    · rw [heq]
      refine ⟨rfl, rfl, .inr ⟨_, [], rest, hdue, ?_, rfl, rfl⟩⟩
      exact fun o ho => ho
  | cons o os ih =>
    have hrest := fun o ho => hos o (List.mem_cons_of_mem _ ho)
    by_cases hpass : n.passes o.object
    · have hdue : due n (o :: os) cfs = .observer o :: due n os cfs := by simp [due, hpass]
      obtain ⟨hcenter, hregistrations, hpostings, hinvoked⟩ := hrefer o.observer
      have hinvoke : (w.refer .retain o.observer).invoke n (.observer o) os cfs = t := by
        rw [deliver, if_neg (by simpa using hpass)] at h
        split_ifs at h with hblock hnull
        · rw [(hos o List.mem_cons_self).1 hblock] at hnull
          cases hnull
        · exact Except.ok.inj h
        · obtain ⟨_, -, h⟩ := bind_eq_ok.mp h
          exact Except.ok.inj h
      rw [← hinvoke, hdue]
      refine ⟨hcenter, hregistrations, .inr ⟨_, os, cfs, rfl, ?_, ?_, ?_⟩⟩
      · exact fun o' ho' => List.mem_cons_of_mem _ ho'
      · exact congrArg _ hpostings
      · exact congrArg _ hinvoked
    · have hdue : due n (o :: os) cfs = due n os cfs := by simp [due, hpass]
      rw [deliver, if_pos (by simpa using hpass)] at h
      obtain ⟨hcenter, hregistrations, hall⟩ := ih hrest h
      rw [hdue]
      refine ⟨hcenter, hregistrations, hall.imp_right ?_⟩
      rintro ⟨r, os', cfs', hsame, hmem, hboth⟩
      exact ⟨r, os', cfs', hsame, fun o' ho' => List.mem_cons_of_mem _ (hmem o' ho'), hboth⟩

lemma deliver_ok (hos : ∀ o ∈ os, o.Invocable client) :
    ∃ t, w.deliver client n cfs os = .ok t := by
  induction os with
  | nil => exact ⟨_, rfl⟩
  | cons o os ih =>
    obtain ⟨ho, hos⟩ := List.forall_mem_cons.mp hos
    rw [NotificationWorld.deliver]
    split_ifs with hpass hblock hnull
    · exact ih hos
    · exact ih hos
    · exact ⟨_, rfl⟩
    · obtain ⟨selector, hselector⟩ := Option.ne_none_iff_exists'.mp (ho.2 (not_not.mp hblock))
      rw [unwrap_eq_ok.mpr hselector]
      exact ⟨_, rfl⟩

lemma Agrees.turn (ha : Agrees client w s)
    (hos : ∀ o ∈ os, o.Invocable client)
    (hdue : ∀ r ∈ due n os cfs, r ∈ s.registered) (h : w.deliver client n cfs os = .ok t) :
    Agrees client t (s.turn n (due n os cfs)) := by
  obtain ⟨hcenter, hregistrations, hcases⟩ := deliver_cases hos h
  have hfiled : t.filed = w.filed := congrArg (fun c => c.getD .new) hcenter
  rcases hcases with ⟨hnone, hpostings, hinvoked⟩ | ⟨r, os', cfs', hsome, hmem, hpostings, hinvoked⟩
  · rw [hnone, Subscriptions.turn]
    exact { ha with
      observers := hfiled ▸ ha.observers
      cfObservers := hfiled ▸ ha.cfObservers
      filed := hfiled ▸ ha.filed
      names := hfiled ▸ ha.names
      named := hfiled ▸ ha.named
      invocable := hfiled ▸ ha.invocable
      registrations := hregistrations.trans ha.registrations
      postings := hpostings ▸ ha.postings
      callable := hpostings ▸ ha.callable
      awaited := fun r hr => ha.awaited r (by rwa [Awaits, hpostings] at hr)
      invoked := hinvoked.trans ha.invoked }
  · have hr : r ∈ s.registered := hdue r (hsome ▸ List.mem_cons_self)
    rw [hsome, Subscriptions.turn, if_pos hr]
    exact { ha with
      observers := hfiled ▸ ha.observers
      cfObservers := hfiled ▸ ha.cfObservers
      filed := hfiled ▸ ha.filed
      names := hfiled ▸ ha.names
      named := hfiled ▸ ha.named
      invocable := hfiled ▸ ha.invocable
      registrations := hregistrations.trans ha.registrations
      postings := by
        rw [hpostings, List.map_cons, ha.postings]
        rfl
      callable := by
        rw [hpostings]
        exact List.forall_mem_cons.mpr ⟨fun o ho => hos o (hmem o ho), ha.callable⟩
      awaited := fun r' hr' => by
        obtain ⟨p, hp, hin⟩ := hr'
        rw [hpostings] at hp
        rcases List.mem_cons.mp hp with rfl | hp
        · exact hdue r' (hsome ▸ List.mem_cons_of_mem _ hin)
        · exact ha.awaited r' ⟨p, hp, hin⟩
      invoked := by rw [hinvoked, ha.invoked] }

lemma number_lt_of_register {r : Registration} (ha : Agrees client w s) (hr : r.number = s.registrations) :
    (s.register r).registered.Pairwise (fun r r' => r.number < r'.number) ∧
      ∀ r' ∈ (s.register r).registered, r'.number < (s.register r).registrations := by
  constructor
  · refine List.pairwise_append.mpr ⟨ha.ordered, List.pairwise_singleton _ _, ?_⟩
    intro r' hr' r'' hr''
    rw [List.mem_singleton.mp hr'', hr]
    exact ha.numbered r' hr'
  · intro r' hr'
    rcases List.mem_append.mp hr' with hr' | hr'
    · exact (ha.numbered r' hr').trans (Nat.lt_succ_self _)
    · rw [List.mem_singleton.mp hr', hr]
      exact Nat.lt_succ_self _

lemma Agrees.observer {o : Observer} {c : NotificationCenter} (ha : Agrees client w s)
    (hc : w.center = some c) (ho : o.registration = s.registrations)
    (hinvocable : o.Invocable client)
    (hcenter : t.center = some (c.push (nameKey o.name) o)) (hpostings : t.postings = w.postings)
    (hinvoked : t.invoked = w.invoked) (hregistrations : t.registrations = w.registrations + 1) :
    Agrees client t (s.register (.observer o)) := by
  obtain ⟨hordered, hnumbered⟩ := number_lt_of_register ha (r := .observer o) ho
  obtain ⟨hkey, hold, hnodup⟩ := c.names_push (nameKey o.name) o
  have hw : w.filed = c := by rw [NotificationWorld.filed, hc]; rfl
  have ht : t.filed = c.push (nameKey o.name) o := by rw [NotificationWorld.filed, hcenter]; rfl
  have hmem : ∀ {o' key}, o' ∈ t.filed.observers key ↔
      o' ∈ w.filed.observers key ∨ key = nameKey o.name ∧ o' = o := by
    intro o' key
    rw [ht, hw, mem_push]
  exact {
    observers := fun o' => by
      rw [hmem, ha.observers, Subscriptions.register, List.mem_append, List.mem_singleton]
      refine or_congr_right ⟨fun h => congrArg _ h.2, fun h => ?_⟩
      rw [Registration.observer.inj h]
      exact ⟨rfl, rfl⟩
    cfObservers := fun cf => by
      have hsame : t.filed.cfObservers = w.filed.cfObservers := by rw [ht, hw]; rfl
      rw [hsame, ha.cfObservers, Subscriptions.register]
      simp
    filed := fun key o' ho' => by
      rcases hmem.mp ho' with ho' | ⟨hk, ho'⟩
      · exact ha.filed key o' ho'
      · rw [hk, ho']
    names := ht ▸ hnodup (hw ▸ ha.names)
    named := fun key o' ho' => by
      rw [ht]
      rcases hmem.mp ho' with ho' | ⟨hk, -⟩
      · exact hold key (hw ▸ ha.named key o' ho')
      · exact hk ▸ hkey
    invocable := fun key o' ho' => by
      rcases hmem.mp ho' with ho' | ⟨-, ho'⟩
      · exact ha.invocable key o' ho'
      · exact ho' ▸ hinvocable
    ordered := hordered
    numbered := hnumbered
    registrations := by rw [hregistrations, ha.registrations]; rfl
    postings := hpostings ▸ ha.postings
    callable := hpostings ▸ ha.callable
    awaited := fun r hr => by
      rw [Awaits, hpostings] at hr
      exact List.mem_append_left _ (ha.awaited r hr)
    invoked := hinvoked.trans ha.invoked }

lemma Agrees.cfObserver {cf : CfObserver} {c : NotificationCenter} (ha : Agrees client w s)
    (hc : w.center = some c) (hcf : cf.registration = s.registrations)
    (hcenter : t.center = some { c with cfObservers := c.cfObservers ++ [cf] })
    (hpostings : t.postings = w.postings) (hinvoked : t.invoked = w.invoked)
    (hregistrations : t.registrations = w.registrations + 1) :
    Agrees client t (s.register (.cfObserver cf)) := by
  obtain ⟨hordered, hnumbered⟩ := number_lt_of_register ha (r := .cfObserver cf) hcf
  have hw : w.filed = c := by rw [NotificationWorld.filed, hc]; rfl
  have ht : t.filed = { c with cfObservers := c.cfObservers ++ [cf] } := by
    rw [NotificationWorld.filed, hcenter]; rfl
  have hobservers : t.filed.observers = w.filed.observers := by rw [ht, hw]
  have hnames : t.filed.names = w.filed.names := by rw [ht, hw]
  exact {
    observers := fun o => by
      rw [hobservers, ha.observers, Subscriptions.register]
      simp
    cfObservers := fun cf' => by
      have hall : t.filed.cfObservers = w.filed.cfObservers ++ [cf] := by rw [ht, hw]
      rw [hall, Subscriptions.register, List.mem_append, List.mem_append, ha.cfObservers]
      simp
    filed := hobservers ▸ ha.filed
    names := hnames ▸ ha.names
    named := fun key o ho => by
      rw [hobservers] at ho
      exact hnames ▸ ha.named key o ho
    invocable := hobservers ▸ ha.invocable
    ordered := hordered
    numbered := hnumbered
    registrations := by rw [hregistrations, ha.registrations]; rfl
    postings := hpostings ▸ ha.postings
    callable := hpostings ▸ ha.callable
    awaited := fun r hr => by
      rw [Awaits, hpostings] at hr
      exact List.mem_append_left _ (ha.awaited r hr)
    invoked := hinvoked.trans ha.invoked }

lemma Agrees.removed {p : Registration → Bool} (ha : Agrees client w s)
    (hobservers : ∀ key o, o ∈ t.filed.observers key ↔ o ∈ w.filed.observers key ∧ p (.observer o) = false)
    (hcfObservers : ∀ cf, cf ∈ t.filed.cfObservers ↔
      cf ∈ w.filed.cfObservers ∧ p (.cfObserver cf) = false)
    (hnames : t.filed.names.Nodup) (hnamed : ∀ key, ∀ o ∈ t.filed.observers key, key ∈ t.filed.names)
    (hspares : w.Spares p) (hpostings : t.postings = w.postings)
    (hinvoked : t.invoked = w.invoked) (hregistrations : t.registrations = w.registrations) :
    Agrees client t (s.unregister p) where
  observers o := by
    rw [hobservers, ha.observers, Subscriptions.unregister, List.mem_filter, Bool.not_eq_true']
  cfObservers cf := by
    rw [hcfObservers, ha.cfObservers, Subscriptions.unregister, List.mem_filter, Bool.not_eq_true']
  filed key o ho := ha.filed key o ((hobservers key o).mp ho).1
  names := hnames
  named := hnamed
  invocable key o ho := ha.invocable key o ((hobservers key o).mp ho).1
  ordered := ha.ordered.filter _
  numbered r hr := ha.numbered r (List.mem_of_mem_filter hr)
  registrations := hregistrations.trans ha.registrations
  postings := hpostings ▸ ha.postings
  callable := hpostings ▸ ha.callable
  awaited r hr := by
    rw [Awaits, hpostings] at hr
    exact List.mem_filter.mpr ⟨ha.awaited r hr, by rw [hspares.of_awaits hr]; rfl⟩
  invoked := hinvoked.trans ha.invoked

lemma mem_keysFor {c : NotificationCenter} {key : String} {name : Option String} :
    key ∈ c.keysFor name ↔ key ∈ c.names ∧ (name = none ∨ name = some key) := by
  cases name with
  | none => simp [keysFor]
  | some k =>
    by_cases hk : k ∈ c.names
    · rw [keysFor, if_pos hk, List.mem_singleton]
      constructor
      · rintro rfl
        exact ⟨hk, .inr rfl⟩
      · rintro ⟨-, h⟩
        simpa [eq_comm] using h
    · rw [keysFor, if_neg hk]
      constructor
      · simp
      · rintro ⟨hkey, h⟩
        obtain rfl : k = key := by simpa using h
        exact absurd hkey hk

lemma Agrees.left_iff {observer object : Id} {name : Option String} {c' : NotificationCenter}
    {removed : List Observer} (ha : Agrees client w s)
    (ho : name = some "" → ∀ o ∈ w.filed.observers "", o.selects observer object → o.name = some "")
    (hremoves : NotificationCenter.Removes (Observer.selects observer object) (w.filed.keysFor name)
      w.filed c' removed) (key : String) (o : Observer) :
    o ∈ c'.observers key ↔ o ∈ w.filed.observers key ∧
      Subscriptions.selects observer name object (.observer o) = false := by
  by_cases hkey : key ∈ w.filed.keysFor name
  · rw [hremoves.left key hkey]
    refine and_congr_right fun hin => ?_
    obtain ⟨-, hname⟩ := mem_keysFor.mp hkey
    cases hsel : o.selects observer object with
    | false => simp [Subscriptions.selects, hsel]
    | true =>
      have hsame : name = none ∨ o.name = name := by
        refine hname.imp_right fun hname => ?_
        subst hname
        have hfiled := ha.filed key o hin
        cases hgiven : o.name with
        | none =>
          rw [hgiven] at hfiled
          obtain rfl : "" = key := hfiled
          exact hgiven ▸ ho rfl o hin hsel
        | some k =>
          rw [hgiven] at hfiled
          exact congrArg some hfiled
      simp only [Subscriptions.selects, hsel, Bool.true_and, Bool.or_eq_false_iff, decide_eq_false_iff_not,
        ← not_or, hsame, not_true_eq_false, Bool.true_eq_false]
  · rw [hremoves.other key hkey]
    refine ⟨fun hin => ⟨hin, ?_⟩, And.left⟩
    have hnot : ¬ (name = none ∨ name = some key) := fun h =>
      hkey (mem_keysFor.mpr ⟨ha.named key o hin, h⟩)
    have hdiffers : ¬ (name = none ∨ o.name = name) := by
      rintro (h | h)
      · exact hnot (.inl h)
      · obtain ⟨k, hk⟩ := Option.ne_none_iff_exists'.mp fun h => hnot (.inl h)
        have hfiled := ha.filed key o hin
        rw [h, hk] at hfiled
        exact hnot (.inr (hk.trans (congrArg some hfiled)))
    rw [Subscriptions.selects, Bool.and_eq_false_iff]
    exact .inr (by simpa using hdiffers)

lemma Agrees.removeObserver {observer object : Id} {name : Option String} (ha : Agrees client w s)
    (ho : w.Orderly client (.removeObserver observer name object))
    (h : w.removeObserver observer name object = .ok t) :
    Agrees client t (s.unregister (Subscriptions.selects observer name object)) := by
  obtain ⟨_, -, h⟩ := bind_eq_ok.mp h
  obtain ⟨c, hc, h⟩ := bind_eq_ok.mp h
  obtain rfl : w.filed = c := by rw [NotificationWorld.filed, unwrap_eq_ok.mp hc]; rfl
  obtain ⟨c', removed, hremove, hremoves⟩ :=
    removeFrom_ok (p := Observer.selects observer object)
      (nodup_keysFor ha.names) ha.names
      fun key hkey => (mem_keysFor.mp hkey).1
  rw [hremove] at h
  obtain rfl := Except.ok.inj h
  obtain ⟨hcenter, hpostings, hinvoked, hregistrations⟩ := releaseAll_eq (w.setCenter c') removed
  have ht : ((w.setCenter c').releaseAll removed).filed = c' := by
    rw [NotificationWorld.filed, hcenter]
    rfl
  have hleft := ha.left_iff ho.2.1 hremoves
  apply ha.removed
  · intro key o
    rw [ht, hleft]
  · intro cf
    rw [ht, hremoves.cfObservers]
    simp [Subscriptions.selects]
  · rw [ht, hremoves.names]
    exact ha.names
  · intro key o hin
    rw [ht] at hin
    rw [ht, hremoves.names]
    exact ha.named key o ((hleft key o).mp hin).1
  · exact ho.2.2
  · exact hpostings
  · exact hinvoked
  · exact hregistrations

lemma Agrees.removeCf {p : CfObserver → Bool} {q : Registration → Bool} (ha : Agrees client w s)
    (hsame : ∀ cf ∈ w.filed.cfObservers, p cf = q (.cfObserver cf)) (hnone : ∀ o, q (.observer o) = false)
    (hspares : w.Spares q) (h : w.removeCf p = .ok t) :
    Agrees client t (s.unregister q) := by
  obtain ⟨c, hc, h⟩ := bind_eq_ok.mp h
  obtain rfl : w.filed = c := by rw [NotificationWorld.filed, unwrap_eq_ok.mp hc]; rfl
  obtain rfl := Except.ok.inj h
  apply ha.removed
  · intro key o
    rw [hnone]
    exact ⟨fun h => ⟨h, rfl⟩, And.left⟩
  · intro cf
    have hmem : cf ∈ (w.filed.cfObservers.filter fun cf => !p cf) ↔
        cf ∈ w.filed.cfObservers ∧ q (.cfObserver cf) = false := by
      rw [List.mem_filter]
      refine and_congr_right fun hin => ?_
      rw [hsame cf hin, Bool.not_eq_true']
    exact hmem
  · exact ha.names
  · exact ha.named
  · exact hspares
  · rfl
  · rfl
  · rfl

lemma mem_due {r : Registration} : r ∈ due n os cfs ↔
    (∃ o, r = .observer o ∧ o ∈ os ∧ n.passes o.object) ∨
      ∃ cf, r = .cfObserver cf ∧ cf ∈ cfs ∧ n.passes cf.object := by
  rw [due, List.mem_append, List.mem_map, List.mem_map]
  refine or_congr (exists_congr fun o => ?_) (exists_congr fun cf => ?_)
  · rw [List.mem_filter, and_comm, eq_comm]
  · rw [List.mem_filter, and_comm, eq_comm]

lemma Agrees.observer_due (ha : Agrees client w s)
    (hempty : ∀ o ∈ w.filed.observers "", n.passes o.object → o.name = some "" → n.name = some "")
    {o : Observer} (hpass : n.passes o.object) :
    o ∈ (w.filed.snapshot n.name).1 ↔ .observer o ∈ s.registered ∧ (o.name = none ∨ o.name = n.name) := by
  rw [← ha.observers, snapshot, List.mem_append]
  constructor
  · have hany : o ∈ w.filed.observers "" → o ∈ w.filed.observers (nameKey o.name) ∧
        (o.name = none ∨ o.name = n.name) := by
      intro hin
      have hfiled := ha.filed "" o hin
      refine ⟨hfiled.symm ▸ hin, ?_⟩
      cases hname : o.name with
      | none => exact .inl rfl
      | some k =>
        rw [hname] at hfiled
        obtain rfl : k = "" := hfiled
        exact .inr (hempty o hin hpass hname).symm
    rintro (hin | hin)
    · have hfiled := ha.filed _ o hin
      cases hn : n.name with
      | none =>
        rw [hn] at hin
        exact hn ▸ hany hin
      | some k =>
        rw [hn] at hin hfiled
        by_cases hk : k = ""
        · subst hk
          exact hn ▸ hany hin
        · cases hname : o.name with
          | none =>
            rw [hname] at hfiled
            exact absurd hfiled.symm hk
          | some k' =>
            rw [hname] at hfiled
            obtain rfl : k' = k := hfiled
            exact ⟨hin, .inr rfl⟩
    · split_ifs at hin
      · exact hany hin
      · cases hin
  · rintro ⟨hin, hname | hname⟩
    · rw [hname] at hin
      by_cases hkey : nameKey n.name = ""
      · exact .inl (hkey.symm ▸ hin)
      · rw [if_pos hkey]
        exact .inr hin
    · exact .inl (hname ▸ hin)

lemma Agrees.cfObserver_due (ha : Agrees client w s)
    (hempty : n.name = none → ∀ cf ∈ w.filed.cfObservers, n.passes cf.object → cf.name ≠ some "")
    {cf : CfObserver} (hpass : n.passes cf.object) :
    cf ∈ (w.filed.snapshot n.name).2 ↔
      .cfObserver cf ∈ s.registered ∧ (cf.name = none ∨ cf.name = n.name) := by
  rw [← ha.cfObservers, snapshot, List.mem_filter]
  refine and_congr_right fun hin => ?_
  rw [Bool.or_eq_true, decide_eq_true_eq, decide_eq_true_eq]
  cases hn : n.name with
  | none =>
    have hne := hempty hn cf hin hpass
    simp [nameKey, hne]
  | some k => rfl

lemma eq_of_ordered {l l' : List Registration} (hl : l.Pairwise fun r r' => r.number < r'.number)
    (hl' : l'.Pairwise fun r r' => r.number < r'.number) (hmem : ∀ r, r ∈ l ↔ r ∈ l') : l = l' := by
  have hnodup : ∀ {l : List Registration}, l.Pairwise (fun r r' => r.number < r'.number) → l.Nodup := by
    intro l hl
    refine hl.imp fun {r r'} hlt heq => ?_
    rw [heq] at hlt
    exact lt_irrefl _ hlt
  apply List.Perm.eq_of_pairwise _ hl hl' ((List.perm_ext_iff_of_nodup (hnodup hl) (hnodup hl')).mpr hmem)
  intro r r' _ _ hlt hgt
  exact absurd (hlt.trans hgt) (lt_irrefl _)

lemma Agrees.due_eq (ha : Agrees client w s) (ho : w.Orderly client (.postNotification n)) :
    due n (w.filed.snapshot n.name).1 (w.filed.snapshot n.name).2 =
      s.registered.filter (Registration.accepts n) := by
  obtain ⟨hempty, hcf, hordered⟩ := ho
  apply eq_of_ordered hordered (ha.ordered.filter _)
  intro r
  rw [mem_due, List.mem_filter, Registration.accepts, Bool.and_eq_true, Bool.or_eq_true,
    decide_eq_true_eq, decide_eq_true_eq]
  cases r with
  | observer o =>
    constructor
    · rintro (⟨o', heq, hin, hpass⟩ | ⟨cf, heq, -⟩)
      · obtain rfl := Registration.observer.inj heq
        obtain ⟨hreg, hname⟩ := (ha.observer_due hempty hpass).mp hin
        exact ⟨hreg, hname, hpass⟩
      · cases heq
    · rintro ⟨hreg, hname, hpass⟩
      exact .inl ⟨o, rfl, (ha.observer_due hempty hpass).mpr ⟨hreg, hname⟩, hpass⟩
  | cfObserver cf =>
    constructor
    · rintro (⟨o', heq, -⟩ | ⟨cf', heq, hin, hpass⟩)
      · cases heq
      · obtain rfl := Registration.cfObserver.inj heq
        obtain ⟨hreg, hname⟩ := (ha.cfObserver_due hcf hpass).mp hin
        exact ⟨hreg, hname, hpass⟩
    · rintro ⟨hreg, hname, hpass⟩
      exact .inr ⟨cf, rfl, (ha.cfObserver_due hcf hpass).mpr ⟨hreg, hname⟩, hpass⟩

lemma Agrees.dealloc (ha : Agrees client w s) (ho : w.Spares fun _ => true) (h : w.dealloc = .ok t) :
    Agrees client t { s with registered := [] } := by
  obtain ⟨c, hc, h⟩ := bind_eq_ok.mp h
  obtain rfl := Except.ok.inj h
  obtain ⟨hcenter, hpostings, hinvoked, hregistrations⟩ :=
    releaseAll_eq { w with center := none } (c.names.flatMap c.observers)
  have ht : ({ w with center := none }.releaseAll (c.names.flatMap c.observers)).filed = .new := by
    rw [NotificationWorld.filed, hcenter]
    rfl
  exact {
    observers := by rw [ht]; simp [new]
    cfObservers := by rw [ht]; simp [new]
    filed := by rw [ht]; rintro _ _ ⟨⟩
    names := by rw [ht]; exact List.nodup_nil
    named := by rw [ht]; rintro _ _ ⟨⟩
    invocable := by rw [ht]; rintro _ _ ⟨⟩
    ordered := List.Pairwise.nil
    numbered := by rintro _ ⟨⟩
    registrations := hregistrations.trans ha.registrations
    postings := by rw [hpostings]; exact ha.postings
    callable := by rw [hpostings]; exact ha.callable
    awaited := fun r hr => by
      rw [Awaits, hpostings] at hr
      exact absurd (ho.of_awaits hr) (by decide)
    invoked := hinvoked.trans ha.invoked }

lemma Agrees.pop {p : Posting} {postings : List Posting} (ha : Agrees client w s)
    (hp : w.postings = p :: postings) (ht : t.postings = postings) (hcenter : t.center = w.center)
    (hinvoked : t.invoked = w.invoked) (hregistrations : t.registrations = w.registrations) :
    ∃ rest, s.postings = (p.notification, p.remaining) :: rest ∧
      Agrees client t { s with postings := rest } := by
  have hpostings := ha.postings
  rw [hp, List.map_cons] at hpostings
  have hfiled : t.filed = w.filed := congrArg (fun c => c.getD .new) hcenter
  refine ⟨_, hpostings.symm, { ha with
    observers := hfiled ▸ ha.observers
    cfObservers := hfiled ▸ ha.cfObservers
    filed := hfiled ▸ ha.filed
    names := hfiled ▸ ha.names
    named := hfiled ▸ ha.named
    invocable := hfiled ▸ ha.invocable
    registrations := hregistrations.trans ha.registrations
    postings := ht ▸ rfl
    callable := fun q hq => ha.callable q (by rw [hp, ← ht]; exact List.mem_cons_of_mem _ hq)
    awaited := fun r hr => ?_
    invoked := hinvoked.trans ha.invoked }⟩
  obtain ⟨q, hq, hin⟩ := hr
  exact ha.awaited r ⟨q, by rw [hp, ← ht]; exact List.mem_cons_of_mem _ hq, hin⟩

lemma Agrees.doReturn (ha : Agrees client w s) (h : w.doReturn client = .ok t) :
    Agrees client t (s.step .ret) := by
  unfold NotificationWorld.doReturn at h
  split at h
  · cases h
  · next p postings hp =>
    have hos := ha.callable p (hp ▸ List.mem_cons_self)
    have hdue : ∀ r ∈ p.remaining, r ∈ s.registered := fun r hr =>
      ha.awaited r ⟨p, hp ▸ List.mem_cons_self, hr⟩
    have hsame : ({ w with postings }.releaseInvoked p.current).postings = postings ∧
        ({ w with postings }.releaseInvoked p.current).center = w.center ∧
        ({ w with postings }.releaseInvoked p.current).invoked = w.invoked ∧
        ({ w with postings }.releaseInvoked p.current).registrations = w.registrations := by
      cases p.current <;> simp [releaseInvoked]
    obtain ⟨rest, hs, hpop⟩ := ha.pop hp hsame.1 hsame.2.1 hsame.2.2.1 hsame.2.2.2
    rw [Subscriptions.step, hs]
    exact hpop.turn hos hdue h

lemma Agrees.invocable_snapshot (ha : Agrees client w s) {name : Option String} :
    ∀ o ∈ (w.filed.snapshot name).1, o.Invocable client := by
  intro o hin
  rcases List.mem_append.mp hin with hin | hin
  · exact ha.invocable _ o hin
  · split_ifs at hin
    · exact ha.invocable _ o hin
    · cases hin

lemma Agrees.step {call : NotificationCall} (ha : Agrees client w s) (ho : w.Orderly client call)
    (h : w.step client call = .ok t) : Agrees client t (s.step call) := by
  cases call with
  | addObserver observer selector name object =>
    change w.addObserver client observer selector name object = .ok t at h
    change ¬ (name = none ∧ client.ignores selector) at ho
    rw [addObserver, if_neg ho] at h
    obtain ⟨c, hc, h⟩ := bind_eq_ok.mp h
    obtain rfl := Except.ok.inj h
    have hnumber := ha.registrations
    rw [Subscriptions.step, ← hnumber]
    refine ha.observer (unwrap_eq_ok.mp (center_refer w ▸ hc)) hnumber ?_ (by simp [registered, setCenter])
      (by simp [registered, setCenter]) (by simp [registered, setCenter]) (by simp [registered, setCenter])
    exact ⟨fun h => absurd rfl h, fun _ => Option.some_ne_none _⟩
  | addObserverForName name object token copied =>
    obtain ⟨c, hc, h⟩ := bind_eq_ok.mp h
    obtain rfl := Except.ok.inj h
    have hnumber := ha.registrations
    rw [Subscriptions.step, ← hnumber]
    refine ha.observer (c := c) ?_ hnumber ⟨fun _ => ho.2, fun h => absurd h ho.1⟩ ?_ (by simp [registered, setCenter])
      (by simp [registered, setCenter]) (by simp [registered, setCenter])
    · simpa using unwrap_eq_ok.mp hc
    · simp [registered, setCenter]
  | removeObserver observer name object => exact ha.removeObserver ho h
  | addCfObserver observer callback name object =>
    obtain ⟨c, hc, h⟩ := bind_eq_ok.mp h
    obtain rfl := Except.ok.inj h
    have hnumber := ha.registrations
    rw [Subscriptions.step, ← hnumber]
    exact ha.cfObserver (unwrap_eq_ok.mp hc) hnumber rfl rfl rfl rfl
  | removeCfObserver observer name object =>
    refine ha.removeCf (fun cf hcf => ?_) (fun o => rfl) ho.2 h
    cases name with
    | none =>
      have hnone := ho.1 rfl cf hcf
      cases hsel : Subscriptions.selectsCf observer none object (.cfObserver cf) with
      | true =>
        simpa [Subscriptions.selectsCf, hnone hsel] using hsel
      | false =>
        simp only [Subscriptions.selectsCf, decide_true, Bool.true_or, Bool.and_true] at hsel
        rw [Bool.and_right_comm, hsel, Bool.false_and]
    | some key => simp [Subscriptions.selectsCf]
  | removeEveryCfObserver observer =>
    refine ha.removeCf (fun cf hcf => ?_) (fun o => rfl) ho h
    simp [Subscriptions.selectsCf]
  | postNotification n =>
    obtain ⟨c, hc, h⟩ := bind_eq_ok.mp h
    obtain rfl : w.filed = c := by rw [NotificationWorld.filed, unwrap_eq_ok.mp hc]; rfl
    have hdue := ha.due_eq ho
    rw [Subscriptions.step, ← hdue]
    apply ha.turn ha.invocable_snapshot _ h
    intro r hr
    rw [hdue] at hr
    exact List.mem_of_mem_filter hr
  | dealloc => exact ha.dealloc ho h
  | ret => exact ha.doReturn h

lemma Agrees.step_ok {call : NotificationCall} (ha : Agrees client w s) (hlive : w.Live call)
    (ho : w.Orderly client call) : ∃ t, w.step client call = .ok t := by
  have hcenter : w.center ≠ none → unwrap w.center = .ok w.filed := by
    intro hsome
    obtain ⟨c, hc⟩ := Option.ne_none_iff_exists'.mp hsome
    rw [NotificationWorld.filed, hc]
    rfl
  cases call with
  | addObserver observer selector name object =>
    change ∃ t, w.addObserver client observer selector name object = .ok t
    change ¬ (name = none ∧ client.ignores selector) at ho
    rw [addObserver, if_neg ho]
    dsimp only
    rw [center_refer, hcenter hlive]
    exact ⟨_, rfl⟩
  | addObserverForName name object token copied =>
    change ∃ t, w.addObserverForName name object token copied = .ok t
    unfold addObserverForName
    dsimp only
    rw [center_refer, center_refer, center_refer, hcenter hlive]
    exact ⟨_, rfl⟩
  | removeObserver observer name object =>
    change ∃ t, w.removeObserver observer name object = .ok t
    obtain ⟨c', removed, hremove, -⟩ :=
      removeFrom_ok (p := Observer.selects observer object)
        (nodup_keysFor ha.names) ha.names fun key hkey => (mem_keysFor.mp hkey).1
    have hassert : assert (observer ≠ nil) = .ok () := assert_eq_ok.mpr ho.1
    rw [NotificationWorld.removeObserver, hassert, ok_bind, hcenter hlive, ok_bind, hremove]
    exact ⟨_, rfl⟩
  | addCfObserver observer callback name object =>
    change ∃ t, w.addCfObserver observer callback name object = .ok t
    rw [addCfObserver, hcenter hlive]
    exact ⟨_, rfl⟩
  | removeCfObserver observer name object =>
    change ∃ t, w.removeCfObserver observer name object = .ok t
    rw [removeCfObserver, NotificationWorld.removeCf, hcenter hlive]
    exact ⟨_, rfl⟩
  | removeEveryCfObserver observer =>
    change ∃ t, w.removeEveryCfObserver observer = .ok t
    rw [removeEveryCfObserver, NotificationWorld.removeCf, hcenter hlive]
    exact ⟨_, rfl⟩
  | postNotification n =>
    change ∃ t, w.postNotification client n = .ok t
    rw [postNotification, hcenter hlive]
    exact deliver_ok ha.invocable_snapshot
  | dealloc =>
    change ∃ t, w.dealloc = .ok t
    rw [NotificationWorld.dealloc, hcenter hlive]
    exact ⟨_, rfl⟩
  | ret =>
    change ∃ t, w.doReturn client = .ok t
    obtain ⟨p, postings, hp⟩ := List.exists_cons_of_ne_nil hlive
    unfold NotificationWorld.doReturn
    rw [hp]
    exact deliver_ok (ha.callable p (hp ▸ List.mem_cons_self))

end NotificationWorld

end TouchHle.Foundation
