import TouchHle.Foundation.NotificationDelivery

namespace TouchHle.Foundation

open Lib Objc Observer NotificationCenter

def Observer.shares (o : Id) (ob : Observer) : ℕ :=
  (if ob.object = o then 1 else 0) +
    if ob.block ≠ nil then (if ob.block = o then 1 else 0) + if ob.observer = o then 1 else 0 else 0

def Posting.holds (o : Id) (p : Posting) : Bool :=
  match p.current with
  | .observer ob => ob.observer = o
  | .cfObserver _ => false

namespace NotificationWorld

variable {client : NotificationClient} {w t : NotificationWorld} {n : Notification} {o : Id}
  {os : List Observer} {cfs : List CfObserver}

def retains (w : NotificationWorld) (o : Id) : ℕ := w.references.count (.retain o)
def releases (w : NotificationWorld) (o : Id) : ℕ := w.references.count (.release o)

def held (w : NotificationWorld) (o : Id) : ℕ :=
  w.filed.total (Observer.shares o) + w.postings.countP (Posting.holds o)

structure Balanced (w : NotificationWorld) : Prop where
  names : w.filed.names.Nodup
  named : ∀ key ∉ w.filed.names, w.filed.observers key = []
  balance : ∀ o ≠ nil, w.retains o = w.releases o + w.held o

lemma retains_refer_retain (ho : o ≠ nil) (x : Id) :
    (w.refer .retain x).retains o = w.retains o + (if x = o then 1 else 0) ∧
      (w.refer .retain x).releases o = w.releases o := by
  unfold refer retains releases
  split_ifs with hnil hx hx
  · exact absurd (hx.symm.trans hnil) ho
  · exact ⟨rfl, rfl⟩
  · simp [hx]
  · simp [hx]

lemma retains_refer_release (ho : o ≠ nil) (x : Id) :
    (w.refer .release x).retains o = w.retains o ∧
      (w.refer .release x).releases o = w.releases o + if x = o then 1 else 0 := by
  unfold refer retains releases
  split_ifs with hnil hx hx
  · exact absurd (hx.symm.trans hnil) ho
  · exact ⟨rfl, rfl⟩
  · simp [hx]
  · simp [hx]

lemma retains_releaseAll (ho : o ≠ nil) (os : List Observer) :
    (w.releaseAll os).retains o = w.retains o ∧
      (w.releaseAll os).releases o = w.releases o + (os.map (shares o)).sum := by
  induction os generalizing w with
  | nil => exact ⟨rfl, rfl⟩
  | cons ob os ih =>
    have hone : (w.releaseObserver ob).retains o = w.retains o ∧
        (w.releaseObserver ob).releases o = w.releases o + ob.shares o := by
      unfold releaseObserver shares
      split_ifs <;> simp [retains_refer_release ho, *]
    obtain ⟨hretains, hreleases⟩ := ih (w := w.releaseObserver ob)
    refine ⟨hretains.trans hone.1, hreleases.trans ?_⟩
    rw [hone.2, List.map_cons, List.sum_cons, add_assoc]

end NotificationWorld

namespace NotificationCenter

variable {c : NotificationCenter}

lemma total_push (key : String) (ob : Observer) (f : Observer → ℕ) (hnames : c.names.Nodup)
    (hnamed : ∀ key ∉ c.names, c.observers key = []) :
    (c.push key ob).total f = c.total f + f ob := by
  unfold total push
  dsimp only
  split_ifs with hkey
  · have hsum := sum_map_update (f := c.observers) (fun os => (os.map f).sum) (c.observers key ++ [ob]) hnames hkey
    rw [List.map_append, List.sum_append, List.map_singleton, List.sum_singleton] at hsum
    omega
  · have hsame : (c.names.map fun k => ((Function.update c.observers key (c.observers key ++ [ob]) k).map f).sum)
        = c.names.map fun k => ((c.observers k).map f).sum := by
      apply List.map_congr_left
      intro k hk
      have hne : k ≠ key := fun heq => hkey (heq ▸ hk)
      rw [Function.update_of_ne hne]
    rw [List.map_append, List.sum_append, hsame, List.map_singleton, List.sum_singleton,
      Function.update_self, hnamed key hkey]
    simp

lemma total_eq (f : Observer → ℕ) : ((c.names.flatMap c.observers).map f).sum = c.total f := by
  unfold total
  induction c.names with
  | nil => rfl
  | cons key names ih =>
    rw [List.flatMap_cons, List.map_append, List.sum_append, ih, List.map_cons, List.sum_cons]

end NotificationCenter

namespace NotificationWorld

variable {client : NotificationClient} {w t : NotificationWorld} {n : Notification} {o : Id}
  {os : List Observer} {cfs : List CfObserver}

lemma balanced_start : start.Balanced where
  names := List.nodup_nil
  named _ _ := rfl
  balance _ _ := rfl

lemma Balanced.deliver (hb : w.Balanced) (h : w.deliver client n cfs os = .ok t) : t.Balanced := by
  induction os with
  | nil =>
    obtain rfl := Except.ok.inj h
    rcases w.deliverCf_cases n cfs with ⟨heq, -⟩ | ⟨cf, rest, -, heq⟩
    · rw [heq]
      exact hb
    · rw [heq]
      refine ⟨hb.names, hb.named, fun o ho => (hb.balance o ho).trans ?_⟩
      have hsame : (w.invoke n (.cfObserver cf) [] rest).held o = w.held o := by
        rw [held, held, invoke, List.countP_cons, if_neg (by simp [Posting.holds])]
        rfl
      rw [hsame]
      rfl
  | cons ob os ih =>
    have hinvoke : ((w.refer .retain ob.observer).invoke n (.observer ob) os cfs).Balanced := by
      have hfiled : ((w.refer .retain ob.observer).invoke n (.observer ob) os cfs).filed = w.filed :=
        congrArg (fun c => c.getD .new) (center_refer w)
      refine ⟨hfiled ▸ hb.names, hfiled ▸ hb.named, fun o ho => ?_⟩
      obtain ⟨hretains, hreleases⟩ := retains_refer_retain (w := w) ho ob.observer
      have hheld : ((w.refer .retain ob.observer).invoke n (.observer ob) os cfs).held o =
          w.held o + if ob.observer = o then 1 else 0 := by
        rw [held, held, hfiled, invoke, List.countP_cons, postings_refer, add_assoc]
        simp [Posting.holds]
      have hbalance := hb.balance o ho
      change (w.refer .retain ob.observer).retains o = (w.refer .retain ob.observer).releases o + _
      rw [hheld]
      omega
    rw [NotificationWorld.deliver] at h
    split_ifs at h
    · exact ih h
    · exact ih h
    · exact Except.ok.inj h ▸ hinvoke
    · obtain ⟨_, -, h⟩ := bind_eq_ok.mp h
      exact Except.ok.inj h ▸ hinvoke

lemma Balanced.released {removed : List Observer} {u : NotificationWorld} (hb : w.Balanced)
    (hnames : u.filed.names.Nodup) (hnamed : ∀ key ∉ u.filed.names, u.filed.observers key = [])
    (htotal : ∀ f, (removed.map f).sum + u.filed.total f = w.filed.total f)
    (hpostings : u.postings = w.postings) (hreferences : u.references = w.references) :
    (u.releaseAll removed).Balanced := by
  obtain ⟨hcenter, hsame, -, -⟩ := releaseAll_eq u removed
  have hfiled : (u.releaseAll removed).filed = u.filed := congrArg (fun c => c.getD .new) hcenter
  refine ⟨hfiled ▸ hnames, hfiled ▸ hnamed, fun o ho => ?_⟩
  obtain ⟨hretains, hreleases⟩ := retains_releaseAll (w := u) ho removed
  have hbalance := hb.balance o ho
  have hold := htotal (shares o)
  have hu : u.retains o = w.retains o ∧ u.releases o = w.releases o := by
    rw [retains, releases, hreferences]
    exact ⟨rfl, rfl⟩
  rw [held] at hbalance
  rw [hretains, hreleases, hu.1, hu.2, held, hfiled, hsame, hpostings]
  omega

lemma Balanced.registered (ob : Observer) {u : NotificationWorld} (hb : w.Balanced)
    (hpostings : u.postings = w.postings)
    (hretains : ∀ o ≠ nil, u.retains o = w.retains o + ob.shares o ∧ u.releases o = w.releases o) :
    ((u.setCenter (w.filed.push (nameKey ob.name) ob)).registered).Balanced := by
  obtain ⟨hkey, hold, hnodup⟩ := w.filed.names_push (nameKey ob.name) ob
  refine ⟨hnodup hb.names, fun key hno => ?_, fun o ho => ?_⟩
  · have hne : key ≠ nameKey ob.name := fun heq => hno (heq ▸ hkey)
    change Function.update w.filed.observers _ _ key = []
    rw [Function.update_of_ne hne]
    exact hb.named key fun hin => hno (hold key hin)
  · have hbalance := hb.balance o ho
    have htotal := total_push (nameKey ob.name) ob (shares o)
      hb.names hb.named
    obtain ⟨hmore, hsame⟩ := hretains o ho
    change u.retains o = u.releases o +
      ((w.filed.push (nameKey ob.name) ob).total (shares o) + u.postings.countP (Posting.holds o))
    rw [htotal, hpostings, hmore, hsame, hbalance, held]
    omega

lemma Balanced.removeCf {p : CfObserver → Bool} (hb : w.Balanced) (h : w.removeCf p = .ok t) :
    t.Balanced := by
  obtain ⟨c, hc, h⟩ := bind_eq_ok.mp h
  obtain rfl : w.filed = c := by rw [NotificationWorld.filed, unwrap_eq_ok.mp hc]; rfl
  obtain rfl := Except.ok.inj h
  exact ⟨hb.names, hb.named, hb.balance⟩

lemma Balanced.removeObserver {observer object : Id} {name : Option String} (hb : w.Balanced)
    (h : w.removeObserver observer name object = .ok t) : t.Balanced := by
  obtain ⟨_, -, h⟩ := bind_eq_ok.mp h
  obtain ⟨c, hc, h⟩ := bind_eq_ok.mp h
  obtain rfl : w.filed = c := by rw [NotificationWorld.filed, unwrap_eq_ok.mp hc]; rfl
  obtain ⟨c', removed, hremove, hremoves⟩ :=
    removeFrom_ok (p := selects observer object)
      (nodup_keysFor hb.names) hb.names fun key hkey => (mem_keysFor.mp hkey).1
  rw [hremove] at h
  obtain rfl := Except.ok.inj h
  have hnames : c'.names.Nodup := hremoves.names ▸ hb.names
  apply hb.released (u := w.setCenter c') hnames _ hremoves.total rfl rfl
  intro key hkey
  have hno : key ∉ w.filed.names := fun hin => hkey (hremoves.names.symm ▸ hin)
  have hother : key ∉ w.filed.keysFor name := fun hin => hno (mem_keysFor.mp hin).1
  exact (hremoves.other key hother).trans (hb.named key hno)

lemma Balanced.dealloc (hb : w.Balanced) (h : w.dealloc = .ok t) : t.Balanced := by
  obtain ⟨c, hc, h⟩ := bind_eq_ok.mp h
  obtain rfl : w.filed = c := by rw [NotificationWorld.filed, unwrap_eq_ok.mp hc]; rfl
  obtain rfl := Except.ok.inj h
  apply hb.released (u := { w with center := none }) List.nodup_nil (fun _ _ => rfl) _ rfl rfl
  intro f
  rw [total_eq]
  rfl

lemma Balanced.doReturn (hb : w.Balanced) (h : w.doReturn client = .ok t) : t.Balanced := by
  unfold NotificationWorld.doReturn at h
  split at h
  · cases h
  · next p postings hp =>
    apply Balanced.deliver _ h
    have hfiled : ({ w with postings }.releaseInvoked p.current).filed = w.filed ∧
        ({ w with postings }.releaseInvoked p.current).postings = postings := by
      cases p.current <;> simp [releaseInvoked, NotificationWorld.filed]
    refine ⟨hfiled.1 ▸ hb.names, hfiled.1 ▸ hb.named, fun o ho => ?_⟩
    have hbalance := hb.balance o ho
    rw [held, hp, List.countP_cons] at hbalance
    rw [held, hfiled.1, hfiled.2]
    have hcurrent : ({ w with postings }.releaseInvoked p.current).retains o = w.retains o ∧
        ({ w with postings }.releaseInvoked p.current).releases o =
          w.releases o + if p.holds o then 1 else 0 := by
      unfold Posting.holds
      cases p.current with
      | observer ob =>
        simp only [decide_eq_true_eq]
        exact retains_refer_release (w := { w with postings }) ho ob.observer
      | cfObserver cf => exact ⟨rfl, rfl⟩
    omega

lemma Balanced.step {call : NotificationCall} (hb : w.Balanced) (ho : w.Orderly client call)
    (h : w.step client call = .ok t) : t.Balanced := by
  cases call with
  | addObserver observer selector name object =>
    change w.addObserver client observer selector name object = .ok t at h
    change ¬ (name = none ∧ client.ignores selector) at ho
    rw [addObserver, if_neg ho] at h
    obtain ⟨c, hc, h⟩ := bind_eq_ok.mp h
    obtain rfl : w.filed = c := by
      rw [NotificationWorld.filed, ← center_refer, unwrap_eq_ok.mp hc]; rfl
    obtain rfl := Except.ok.inj h
    apply hb.registered ⟨observer, some selector, object, nil, name, _⟩ (postings_refer w)
    intro o ho
    simpa [shares] using retains_refer_retain (w := w) ho object
  | addObserverForName name object token copied =>
    obtain ⟨c, hc, h⟩ := bind_eq_ok.mp h
    obtain rfl : w.filed = c := by
      rw [NotificationWorld.filed]
      simpa using congrArg (fun c => c.getD .new) (unwrap_eq_ok.mp hc)
    obtain rfl := Except.ok.inj h
    apply hb.registered ⟨token, none, object, copied, name, _⟩ (by simp)
    intro o hnil
    have hcopied : copied ≠ nil := ho.1
    simp only [shares, retains_refer_retain hnil, hcopied, ne_eq, not_false_eq_true, if_true,
      and_true]
    omega
  | removeObserver observer name object => exact hb.removeObserver h
  | addCfObserver observer callback name object =>
    obtain ⟨c, hc, h⟩ := bind_eq_ok.mp h
    obtain rfl : w.filed = c := by rw [NotificationWorld.filed, unwrap_eq_ok.mp hc]; rfl
    obtain rfl := Except.ok.inj h
    exact ⟨hb.names, hb.named, hb.balance⟩
  | removeCfObserver observer name object => exact hb.removeCf h
  | removeEveryCfObserver observer => exact hb.removeCf h
  | postNotification n =>
    obtain ⟨c, -, h⟩ := bind_eq_ok.mp h
    exact hb.deliver h
  | dealloc => exact hb.dealloc h
  | ret => exact hb.doReturn h

def plainClient : NotificationClient := ⟨fun _ => false, fun _ => false⟩

def orderlyCalls : List NotificationCall :=
  [.addObserver 1 "update:" (some "a") nil, .addObserverForName (some "a") 7 2 3,
    .addCfObserver 4 5 none nil, .postNotification ⟨some "a", 7⟩, .removeObserver 1 none nil,
    .postNotification ⟨some "b", nil⟩, .ret, .ret, .ret, .ret, .removeObserver 2 none nil, .dealloc]

def removedCalls : List NotificationCall :=
  [.addCfObserver 1 2 (some "a") nil, .removeCfObserver 1 none nil, .postNotification ⟨some "a", nil⟩]

end NotificationWorld

end TouchHle.Foundation
