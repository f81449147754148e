import TouchHle.Foundation.Operation

namespace TouchHle.Foundation

open Lib List Except Option Function

def Frame.starts : Frame → Option OpId
  | .executing op | .main op | .ended op | .finished op | .completion op | .startCancelled op => some op
  | _ => none

def Frame.runs : Frame → Option OpId
  | .executing op | .main op => some op
  | _ => none

def Frame.Fits (above : Option OpId) : Frame → Prop
  | .addOperation _ op => above = some op
  | .setSuspended .. => False
  | _ => True

def Nested (above : Option OpId) : List Frame → Prop
  | [] => True
  | f :: stack => f.Fits above ∧ Nested f.starts stack

lemma Nested.weaken {above : Option OpId} {stack : List Frame} (h : Nested none stack) :
    Nested above stack := by
  cases stack with
  | nil => trivial
  | cons f stack =>
    refine ⟨?_, h.2⟩
    cases f <;> first | trivial | cases h.1

namespace OperationWorld

variable {w t : OperationWorld} {op : OpId} {q : QueueId} {stack : List Frame} {f : Frame}
  {above : Option OpId}

def Added (w : OperationWorld) (q : QueueId) (op : OpId) : Prop :=
  ∃ h, (.added q op, h) ∈ w.log

def isExecution (op : OpId) (e : OperationEvent × OperationHeap) : Bool :=
  match e.1 with
  | .executes op' => op' = op
  | _ => false

def executions (w : OperationWorld) (op : OpId) : ℕ := w.log.countP (isExecution op)

def Executed (w : OperationWorld) (op : OpId) : Prop :=
  0 < w.executions op ∧ (w.heap.isFinished op ∨ ∃ f ∈ w.stack, f.runs = some op)

structure Lossless (w : OperationWorld) : Prop where
  executed : ∀ q op, w.Added q op → (w.heap.ops op).cancelled = false →
    (∀ dep ∈ (w.heap.ops op).dependencies, w.heap.isFinished dep) →
    (w.heap.queues q).suspended = false → w.Executed op
  once : ∀ op, w.executions op ≤ 1
  afterDependencies : ∀ op h, (.executes op, h) ∈ w.log →
    ∀ dep ∈ (h.ops op).dependencies, h.isFinished dep
  notSuspended : ∀ op h, (.executes op, h) ∈ w.log →
    ∀ q, op ∈ (h.queues q).operations → (h.queues q).suspended = false
  keeps : ∀ q op h, (.leaves q op, h) ∈ w.log → h.isFinished op

/-- A queue is given an operation that it can execute at once or that has finished, and no operation
is started by the application before its dependencies have finished. -/
def Timely (w : OperationWorld) : OperationCall → Prop
  | .addOperation q (some op) =>
    w.heap.isFinished op ∨ (w.heap.queues q).suspended = false ∧ w.heap.isReady op
  | .addOperationWithBlock q (some _) _ => (w.heap.queues q).suspended = false
  | .start op => (w.heap.ops op).state = .ready → (w.heap.ops op).cancelled = false →
    ∀ dep ∈ (w.heap.ops op).dependencies, w.heap.isFinished dep
  | _ => True

structure Sound (w : OperationWorld) (fresh : Option OpId) : Prop where
  added : ∀ q op, w.Added q op → some op ≠ fresh → (w.heap.ops op).state ≠ .ready
  enqueued : ∀ q, ∀ op ∈ (w.heap.queues q).operations, some op ≠ fresh → (w.heap.ops op).state ≠ .ready
  begun : ∀ op, 0 < w.executions op → (w.heap.ops op).state ≠ .ready
  left : ∀ op, (w.heap.ops op).state ≠ .ready →
    (w.heap.ops op).cancelled ∨ 0 < w.executions op
  running : ∀ op, (w.heap.ops op).state = .executing → ∃ f ∈ w.stack, f.runs = some op
  once : ∀ op, w.executions op ≤ 1
  afterDependencies : ∀ op h, (.executes op, h) ∈ w.log →
    ∀ dep ∈ (h.ops op).dependencies, h.isFinished dep
  notSuspended : ∀ op h, (.executes op, h) ∈ w.log →
    ∀ q, op ∈ (h.queues q).operations → (h.queues q).suspended = false
  keeps : ∀ q op h, (.leaves q op, h) ∈ w.log → h.isFinished op
  started : ∀ f ∈ w.stack, ∀ op, f.starts = some op → (w.heap.ops op).state ≠ .ready ∧
    (f.runs = none → w.heap.isFinished op)
  unknown : ∀ op ∉ w.heap.objects, w.heap.ops op = .new
  nested : Nested none w.stack

lemma isFinished_iff : w.heap.isFinished op = true ↔ (w.heap.ops op).state = .finished := by
  simp [OperationHeap.isFinished]

lemma isReady_iff : w.heap.isReady op = true ↔ (w.heap.ops op).state = .ready ∧
    ∀ dep ∈ (w.heap.ops op).dependencies, w.heap.isFinished dep := by
  simp [OperationHeap.isReady]

lemma Sound.lossless (hs : w.Sound none) : w.Lossless where
  executed q op hadded hcancelled _ _ := by
    have hready := hs.added q op hadded (by rintro ⟨⟩)
    have hbegun := (hs.left op hready).resolve_left (by simp [hcancelled])
    refine ⟨hbegun, ?_⟩
    cases hstate : (w.heap.ops op).state with
    | ready => exact absurd hstate hready
    | executing => exact .inr (hs.running op hstate)
    | finished => exact .inl (isFinished_iff.mpr hstate)
  once := hs.once
  afterDependencies := hs.afterDependencies
  notSuspended := hs.notSuspended
  keeps := hs.keeps

lemma sound_empty : empty.Sound none where
  added := by rintro q op ⟨h, hmem⟩; cases hmem
  enqueued := by rintro _ _ ⟨⟩
  begun := by rintro _ ⟨⟩
  left := fun op h => absurd rfl h
  running := by rintro _ ⟨⟩
  once := fun op => Nat.zero_le _
  afterDependencies := by rintro _ _ ⟨⟩
  notSuspended := by rintro _ _ ⟨⟩
  keeps := by rintro _ _ _ ⟨⟩
  started := by rintro _ ⟨⟩
  unknown := fun op _ => rfl
  nested := trivial

@[simp] lemma state_setState {h : OperationHeap} {op' : OpId} {s : OperationState} :
    ((h.setState op s).ops op').state = if op' = op then s else (h.ops op').state := by
  by_cases heq : op' = op
  · rw [heq]
    simp [OperationHeap.setState, OperationHeap.setOp]
  · simp [OperationHeap.setState, OperationHeap.setOp, heq]

@[simp] lemma cancelled_setState {h : OperationHeap} {op' : OpId} {s : OperationState} :
    ((h.setState op s).ops op').cancelled = (h.ops op').cancelled := by
  by_cases heq : op' = op
  · rw [heq]
    simp [OperationHeap.setState, OperationHeap.setOp]
  · simp [OperationHeap.setState, OperationHeap.setOp, heq]

lemma ops_setState_of_ne {h : OperationHeap} {op' : OpId} {s : OperationState} (hne : op' ≠ op) :
    (h.setState op s).ops op' = h.ops op' :=
  update_of_ne hne _ _

lemma isFinished_setState {h : OperationHeap} {op' : OpId} (hf : h.isFinished op') :
    (h.setState op .finished).isFinished op' := by
  simp only [OperationHeap.isFinished, state_setState, decide_eq_true_eq] at hf ⊢
  split_ifs <;> trivial

lemma Sound.exempt (hs : w.Sound none) : w.Sound (some op) :=
  { hs with
    added := fun q op' h _ => hs.added q op' h (by rintro ⟨⟩)
    enqueued := fun q op' h _ => hs.enqueued q op' h (by rintro ⟨⟩) }

lemma Sound.known (hs : w.Sound none) (h : (w.heap.ops op).state ≠ .ready) :
    op ∈ w.heap.objects := by
  by_contra hno
  rw [hs.unknown op hno] at h
  exact h rfl

lemma Sound.withHeap {h : OperationHeap} {fresh : Option OpId} (hs : w.Sound fresh)
    (hstate : ∀ op, (h.ops op).state = (w.heap.ops op).state)
    (hcancelled : ∀ op, (w.heap.ops op).cancelled → (h.ops op).cancelled)
    (hqueues : ∀ q, (h.queues q).operations = (w.heap.queues q).operations)
    (hunknown : ∀ op ∉ h.objects, h.ops op = .new) : (w.withHeap h).Sound fresh where
  added q op hadded hne := by
    rw [OperationWorld.withHeap, hstate]
    exact hs.added q op hadded hne
  enqueued q op hmem hne := by
    rw [OperationWorld.withHeap, hqueues] at hmem
    rw [OperationWorld.withHeap, hstate]
    exact hs.enqueued q op hmem hne
  begun op hpos := by
    rw [OperationWorld.withHeap, hstate]
    exact hs.begun op hpos
  left op hne := by
    rw [OperationWorld.withHeap, hstate] at hne
    exact (hs.left op hne).imp_left (hcancelled op)
  running op hexec := by
    rw [OperationWorld.withHeap, hstate] at hexec
    exact hs.running op hexec
  once := hs.once
  afterDependencies := hs.afterDependencies
  notSuspended := hs.notSuspended
  keeps := hs.keeps
  started f hf op hop := by
    have hold := hs.started f hf op hop
    simpa only [OperationWorld.withHeap, OperationHeap.isFinished, hstate] using hold
  unknown := hunknown
  nested := hs.nested

lemma Sound.push {fresh : Option OpId} (hs : w.Sound fresh) (hfits : f.Fits none)
    (hstarts : f.starts = none) : (w.push f).Sound fresh :=
  { hs with
    running := fun op hexec => by
      obtain ⟨g, hg, hruns⟩ := hs.running op hexec
      exact ⟨g, mem_cons_of_mem _ hg, hruns⟩
    started := fun g hg op hop => by
      rcases mem_cons.mp hg with rfl | hg
      · exact absurd hop (by simp [hstarts])
      · exact hs.started g hg op hop
    nested := ⟨hfits, hs.nested.weaken⟩ }

section

variable {s : OperationState} (frames : List Frame) (hs : w.Sound (some op))
  (hready : (w.heap.ops op).state = .ready) (hknown : op ∈ w.heap.objects)
  (hframes : frames = [] ∨ ∃ q, frames = [.addOperation q op])

include hframes in
lemma starts_frames : ∀ f ∈ frames, f.starts = none := by
  rcases hframes with rfl | ⟨q, rfl⟩
  · rintro _ ⟨⟩
  · intro f hf
    rw [mem_singleton.mp hf]
    rfl

include hs hframes in
lemma Sound.nested_frames : Nested (some op) (frames ++ w.stack) := by
  rcases hframes with rfl | ⟨q, rfl⟩
  · exact hs.nested.weaken
  · exact ⟨rfl, hs.nested⟩

lemma state_ne_ready {op' : OpId} (hne : s ≠ .ready)
    (hold : some op' ≠ some op → (w.heap.ops op').state ≠ .ready) :
    ((w.heap.setState op s).ops op').state ≠ .ready := by
  rw [state_setState]
  split_ifs with heq
  · exact hne
  · exact hold (by simpa using heq)

include hs hready hframes in
lemma Sound.started_frames : ∀ f ∈ frames ++ w.stack, ∀ op', f.starts = some op' →
    ((w.heap.setState op s).ops op').state ≠ .ready ∧
      (f.runs = none → (w.heap.setState op s).isFinished op') := by
  intro f hf op' hop
  rcases mem_append.mp hf with hf | hf
  · exact absurd hop (by simp [starts_frames frames hframes f hf])
  · obtain ⟨hold, hfinished⟩ := hs.started f hf op' hop
    have hdistinct : op' ≠ op := by
      rintro rfl
      exact hold hready
    simpa [OperationHeap.isFinished, hdistinct] using And.intro hold hfinished

include hs hknown in
lemma Sound.unknown_setState : ∀ op' ∉ w.heap.objects, (w.heap.setState op s).ops op' = .new := by
  intro op' hop'
  have hne : op' ≠ op := fun heq => hop' (heq ▸ hknown)
  rw [ops_setState_of_ne hne]
  exact hs.unknown op' hop'

include hs hready hknown hframes

lemma Sound.startCancelled (hcancelled : (w.heap.ops op).cancelled) :
    Sound ⟨w.heap.setState op .finished, .startCancelled op :: (frames ++ w.stack), w.log⟩ none where
  added q op' h _ := state_ne_ready (by rintro ⟨⟩) (hs.added q op' h)
  enqueued q op' h _ := state_ne_ready (by rintro ⟨⟩) (hs.enqueued q op' h)
  begun op' h := state_ne_ready (by rintro ⟨⟩) fun _ => hs.begun op' h
  left op' h := by
    by_cases heq : op' = op
    · exact .inl (by simpa [heq] using hcancelled)
    · rw [state_setState, if_neg heq] at h
      exact (hs.left op' h).imp_left fun hc => cancelled_setState.trans hc
  running op' h := by
    have hne : op' ≠ op := by
      rintro rfl
      simp at h
    rw [state_setState, if_neg hne] at h
    obtain ⟨g, hg, hruns⟩ := hs.running op' h
    exact ⟨g, mem_cons_of_mem _ (mem_append_right _ hg), hruns⟩
  once := hs.once
  afterDependencies := hs.afterDependencies
  notSuspended := hs.notSuspended
  keeps := hs.keeps
  started g hg op' hop := by
    rcases mem_cons.mp hg with rfl | hg
    · obtain rfl := some.inj hop
      simp [OperationHeap.isFinished]
    · exact hs.started_frames frames hready hframes g hg op' hop
  unknown := hs.unknown_setState hknown
  nested := ⟨trivial, hs.nested_frames frames hframes⟩

lemma Sound.execute (horder : ∀ dep ∈ (w.heap.ops op).dependencies, w.heap.isFinished dep)
    (hsuspended : ∀ q, op ∈ (w.heap.queues q).operations → (w.heap.queues q).suspended = false) :
    Sound ⟨w.heap.setState op .executing, .executing op :: (frames ++ w.stack),
      (.executes op, w.heap) :: w.log⟩ none := by
  have hbefore : w.executions op = 0 :=
    Nat.eq_zero_of_not_pos fun hpos => hs.begun op hpos hready
  obtain ⟨t, ht⟩ : ∃ t : OperationWorld, t = ⟨w.heap.setState op .executing,
    .executing op :: (frames ++ w.stack), (.executes op, w.heap) :: w.log⟩ := ⟨_, rfl⟩
  have hself : t.executions op = 1 := by
    rw [ht, executions, countP_cons, if_pos (by simp [isExecution])]
    exact congrArg (· + 1) hbefore
  have hother : ∀ op' ≠ op, t.executions op' = w.executions op' := by
    intro op' hne
    rw [ht, executions, countP_cons, if_neg (by simp [isExecution, hne.symm])]
    rfl
  have hadded : ∀ q op', t.Added q op' → w.Added q op' := by
    rintro q op' ⟨h, hmem⟩
    rw [ht] at hmem
    rcases mem_cons.mp hmem with heq | hmem
    · cases (Prod.mk.inj heq).1
    · exact ⟨h, hmem⟩
  have hheap : t.heap = w.heap.setState op .executing := by rw [ht]
  have hstack : t.stack = .executing op :: (frames ++ w.stack) := by rw [ht]
  have hlog : t.log = (.executes op, w.heap) :: w.log := by rw [ht]
  rw [← ht]
  exact {
    added := fun q op' h _ => by
      rw [hheap]
      exact state_ne_ready (by rintro ⟨⟩) (hs.added q op' (hadded q op' h))
    enqueued := fun q op' h _ => by
      rw [hheap] at h ⊢
      exact state_ne_ready (by rintro ⟨⟩) (hs.enqueued q op' h)
    begun := fun op' h => by
      rw [hheap]
      refine state_ne_ready (by rintro ⟨⟩) fun hne => hs.begun op' ?_
      rwa [← hother op' (by simpa using hne)]
    left := fun op' h => by
      by_cases heq : op' = op
      · rw [heq, hself]
        exact .inr Nat.one_pos
      · rw [hheap, state_setState, if_neg heq] at h
        rw [hother op' heq, hheap, cancelled_setState]
        exact hs.left op' h
    running := fun op' h => by
      rw [hstack]
      by_cases heq : op' = op
      · exact ⟨_, mem_cons_self, congrArg some heq.symm⟩
      · rw [hheap, state_setState, if_neg heq] at h
        obtain ⟨g, hg, hruns⟩ := hs.running op' h
        exact ⟨g, mem_cons_of_mem _ (mem_append_right _ hg), hruns⟩
    once := fun op' => by
      by_cases heq : op' = op
      · rw [heq, hself]
      · rw [hother op' heq]
        exact hs.once op'
    afterDependencies := fun op' h hmem => by
      rw [hlog] at hmem
      rcases mem_cons.mp hmem with heq | hmem
      · obtain ⟨hevent, rfl⟩ := Prod.mk.inj heq
        obtain rfl := OperationEvent.executes.inj hevent
        exact horder
      · exact hs.afterDependencies op' h hmem
    notSuspended := fun op' h hmem => by
      rw [hlog] at hmem
      rcases mem_cons.mp hmem with heq | hmem
      · obtain ⟨hevent, rfl⟩ := Prod.mk.inj heq
        obtain rfl := OperationEvent.executes.inj hevent
        exact hsuspended
      · exact hs.notSuspended op' h hmem
    keeps := fun q op' h hmem => by
      rw [hlog] at hmem
      rcases mem_cons.mp hmem with heq | hmem
      · cases (Prod.mk.inj heq).1
      · exact hs.keeps q op' h hmem
    started := fun g hg op' hop => by
      rw [hstack] at hg
      rw [hheap]
      rcases mem_cons.mp hg with rfl | hg
      · obtain rfl := some.inj hop
        exact ⟨by simp, (by rintro ⟨⟩)⟩
      · exact hs.started_frames frames hready hframes g hg op' hop
    unknown := by
      rw [hheap]
      exact hs.unknown_setState hknown
    nested := by
      rw [hstack]
      exact ⟨trivial, hs.nested_frames frames hframes⟩ }

lemma Sound.start (horder : (w.heap.ops op).cancelled = false →
      ∀ dep ∈ (w.heap.ops op).dependencies, w.heap.isFinished dep)
    (hsuspended : ∀ q, op ∈ (w.heap.queues q).operations → (w.heap.queues q).suspended = false) :
    ({ w with stack := frames ++ w.stack }.start op).Sound none := by
  unfold OperationWorld.start
  rw [if_neg (not_not.mpr hready)]
  split_ifs with hcancelled
  · exact hs.startCancelled frames hready hknown hframes hcancelled
  · exact hs.execute frames hready hknown hframes (horder (by simpa using hcancelled)) hsuspended

end

lemma Sound.noted {fresh : Option OpId} {h : OperationHeap} {e : OperationEvent} (hs : w.Sound fresh)
    (hadded : ∀ q op, e = .added q op → some op ≠ fresh → (w.heap.ops op).state ≠ .ready)
    (hexecutes : ∀ op, e ≠ .executes op) (hleaves : ∀ q op, e = .leaves q op → h.isFinished op) :
    Sound ⟨w.heap, w.stack, (e, h) :: w.log⟩ fresh := by
  have hcount : ∀ op, executions ⟨w.heap, w.stack, (e, h) :: w.log⟩ op = w.executions op := by
    intro op
    rw [executions, countP_cons, if_neg]
    · rfl
    · cases e with
      | executes op' => exact absurd rfl (hexecutes op')
      | added | leaves => simp [isExecution]
  have hold : ∀ {op h'}, (.executes op, h') ∈ (e, h) :: w.log → (.executes op, h') ∈ w.log := by
    intro op h' hmem
    exact (mem_cons.mp hmem).resolve_left fun heq => hexecutes op (Prod.mk.inj heq).1.symm
  exact { hs with
    added := fun q op hmem hne => by
      obtain ⟨h', hmem⟩ := hmem
      rcases mem_cons.mp hmem with heq | hmem
      · exact hadded q op (Prod.mk.inj heq).1.symm hne
      · exact hs.added q op ⟨h', hmem⟩ hne
    begun := fun op hpos => hs.begun op (hcount op ▸ hpos)
    left := fun op hne => (hs.left op hne).imp_right fun hpos => (hcount op).symm ▸ hpos
    once := fun op => (hcount op).symm ▸ hs.once op
    afterDependencies := fun op h' hmem => hs.afterDependencies op h' (hold hmem)
    notSuspended := fun op h' hmem => hs.notSuspended op h' (hold hmem)
    keeps := fun q op h' hmem => by
      rcases mem_cons.mp hmem with heq | hmem
      · obtain ⟨hevent, rfl⟩ := Prod.mk.inj heq
        exact hleaves q op hevent.symm
      · exact hs.keeps q op h' hmem }

lemma Sound.setQueue {fresh : Option OpId} {queue : OperationQueue} (hs : w.Sound fresh)
    (hqueue : ∀ op ∈ queue.operations, some op ≠ fresh → (w.heap.ops op).state ≠ .ready) :
    (w.withHeap (w.heap.setQueue q queue)).Sound fresh :=
  { hs with
    enqueued := fun q' op hmem hne => by
      change op ∈ (update w.heap.queues q queue q').operations at hmem
      by_cases heq : q' = q
      · rw [heq, update_self] at hmem
        exact hqueue op hmem hne
      · rw [update_of_ne heq] at hmem
        exact hs.enqueued q' op hmem hne }

lemma Sound.enqueue {fresh : Option OpId} (hs : w.Sound fresh)
    (hop : some op ≠ fresh → (w.heap.ops op).state ≠ .ready) : (w.enqueue q op).Sound fresh := by
  have hnoted : Sound ⟨w.heap, w.stack, (.added q op, w.heap) :: w.log⟩ fresh :=
    hs.noted (by rintro q' op' ⟨rfl, rfl⟩; exact hop) (by rintro _ ⟨⟩) (by rintro _ _ ⟨⟩)
  refine hnoted.setQueue fun op' hmem hne => ?_
  rcases mem_append.mp hmem with hmem | hmem
  · exact hs.enqueued q op' hmem hne
  · rw [mem_singleton.mp hmem] at hne ⊢
    exact hop hne

lemma Sound.leave {fresh : Option OpId} (hs : w.Sound fresh)
    (hop : w.heap.isFinished op) : (w.leave q op).Sound fresh := by
  unfold OperationWorld.leave
  split_ifs with hmem
  · have hnoted : Sound ⟨w.heap, w.stack, (.leaves q op, w.heap) :: w.log⟩ fresh :=
      hs.noted (by rintro _ _ ⟨⟩) (by rintro _ ⟨⟩) (by rintro q' op' ⟨rfl, rfl⟩; exact hop)
    refine hnoted.setQueue fun op' hmem hne => ?_
    exact hs.enqueued q op' (mem_of_mem_filter hmem) hne
  · exact hs

lemma Sound.resumeFrom (hs : w.Sound none) : ∀ i todo, w.resumeFrom q i todo = w := by
  intro i todo
  induction todo generalizing i with
  | zero => rfl
  | succ todo ih =>
    rw [OperationWorld.resumeFrom]
    split
    · exact ih (i + 1)
    · next op hget =>
      have hready : w.heap.isReady op = false := by
        rw [← Bool.not_eq_true, isReady_iff]
        exact fun h => hs.enqueued q op (mem_of_getElem? hget) (by rintro ⟨⟩) h.1
      rw [hready, Bool.false_and, Bool.false_and, if_neg Bool.false_ne_true]
      exact ih (i + 1)

lemma Sound.pop (frames : List Frame) (hs : w.Sound none) (hstack : w.stack = frames ++ stack)
    (hruns : ∀ f ∈ frames, f.runs = none) (hnested : Nested none stack) :
    Sound ⟨w.heap, stack, w.log⟩ none :=
  { hs with
    running := fun op hexec => by
      obtain ⟨g, hg, hgop⟩ := hs.running op hexec
      rw [hstack] at hg
      rcases mem_append.mp hg with hg | hg
      · exact absurd hgop (by simp [hruns g hg])
      · exact ⟨g, hg, hgop⟩
    started := fun g hg => hs.started g (hstack ▸ mem_append_right _ hg)
    nested := hnested }

lemma Sound.returned (hs : w.Sound none) (hstack : w.stack = f :: stack) (hruns : f.runs = none)
    (hstarts : f.starts = some op) : (w.returned stack).Sound none := by
  have hfinished : w.heap.isFinished op :=
    (hs.started f (by simp [hstack]) op hstarts).2 hruns
  have hnested : Nested (some op) stack := by
    have hall := hs.nested
    rw [hstack] at hall
    exact hstarts ▸ hall.2
  have hfirst : ∀ g ∈ [f], g.runs = none := by
    intro g hg
    rw [mem_singleton.mp hg, hruns]
  cases stack with
  | nil => exact hs.pop [f] hstack hfirst trivial
  | cons g stack =>
    obtain ⟨hfits, hrest⟩ := hnested
    cases g with
    | addOperation q op' =>
      obtain rfl := some.inj hfits
      have hboth : ∀ g ∈ [f, .addOperation q op], g.runs = none := by
        intro g hg
        rcases mem_cons.mp hg with rfl | hg
        · exact hruns
        · rw [mem_singleton.mp hg]
          rfl
      exact (hs.pop [f, .addOperation q op] hstack hboth hrest).leave hfinished
    | setSuspended q i todo => exact hfits.elim
    | executing | main | ended | finished | completion | startCancelled | cancel =>
      exact hs.pop [f] hstack hfirst ⟨trivial, hrest⟩

lemma Sound.exchange {g : Frame} (hs : w.Sound none) (hstack : w.stack = f :: stack)
    (hruns : g.runs = f.runs) (hstarts : g.starts = f.starts) (hfits : g.Fits none) :
    Sound ⟨w.heap, g :: stack, w.log⟩ none :=
  { hs with
    running := fun op hexec => by
      obtain ⟨k, hk, hkop⟩ := hs.running op hexec
      rw [hstack] at hk
      rcases mem_cons.mp hk with rfl | hk
      · exact ⟨g, mem_cons_self, hruns.trans hkop⟩
      · exact ⟨k, mem_cons_of_mem _ hk, hkop⟩
    started := fun k hk op hop => by
      rcases mem_cons.mp hk with rfl | hk
      · rw [hruns]
        exact hs.started f (by simp [hstack]) op (hstarts ▸ hop)
      · exact hs.started k (by simp [hstack, hk]) op hop
    nested := by
      have hall := hs.nested
      rw [hstack] at hall
      exact ⟨hfits, hstarts ▸ hall.2⟩ }

lemma Sound.finish (hs : w.Sound none) (hstack : w.stack = .main op :: stack) :
    Sound ⟨w.heap.setState op .finished, .ended op :: stack, w.log⟩ none := by
  have hstate : (w.heap.ops op).state ≠ .ready :=
    (hs.started _ (by rw [hstack]; exact mem_cons_self) op rfl).1
  have hall := hs.nested
  rw [hstack] at hall
  have hstarted : ∀ f ∈ w.stack, ∀ op', f.starts = some op' →
      ((w.heap.setState op .finished).ops op').state ≠ .ready ∧
        (f.runs = none → (w.heap.setState op .finished).isFinished op') := by
    intro f hf op' hop
    obtain ⟨hold, hfinished⟩ := hs.started f hf op' hop
    exact ⟨state_ne_ready (by rintro ⟨⟩) fun _ => hold, fun h => isFinished_setState (hfinished h)⟩
  exact {
    added := fun q op' h _ => state_ne_ready (by rintro ⟨⟩) fun _ => hs.added q op' h (by rintro ⟨⟩)
    enqueued := fun q op' h _ => state_ne_ready (by rintro ⟨⟩) fun _ => hs.enqueued q op' h (by rintro ⟨⟩)
    begun := fun op' h => state_ne_ready (by rintro ⟨⟩) fun _ => hs.begun op' h
    left := fun op' h => by
      rw [cancelled_setState]
      by_cases heq : op' = op
      · exact heq ▸ hs.left op hstate
      · rw [state_setState, if_neg heq] at h
        exact hs.left op' h
    running := fun op' h => by
      have hne : op' ≠ op := by
        rintro rfl
        simp at h
      rw [state_setState, if_neg hne] at h
      obtain ⟨g, hg, hgop⟩ := hs.running op' h
      rw [hstack] at hg
      rcases mem_cons.mp hg with rfl | hg
      · exact absurd (some.inj hgop).symm hne
      · exact ⟨g, mem_cons_of_mem _ hg, hgop⟩
    once := hs.once
    afterDependencies := hs.afterDependencies
    notSuspended := hs.notSuspended
    keeps := hs.keeps
    started := fun g hg op' hop => by
      rcases mem_cons.mp hg with rfl | hg
      · obtain rfl := some.inj hop
        simp [OperationHeap.isFinished]
      · exact hstarted g (by simp [hstack, hg]) op' hop
    unknown := hs.exempt.unknown_setState (hs.known hstate)
    nested := ⟨trivial, hall.2⟩ }

lemma Sound.doReturn (hs : w.Sound none) (hret : w.doReturn = .ok t) : t.Sound none := by
  unfold OperationWorld.doReturn at hret
  split at hret
  · next op stack hstack =>
    obtain rfl := ok.inj hret
    exact hs.exchange hstack rfl rfl trivial
  · next op stack hstack =>
    obtain rfl := ok.inj hret
    exact hs.finish hstack
  · next op stack hstack =>
    obtain rfl := ok.inj hret
    exact hs.exchange hstack rfl rfl trivial
  · next op stack hstack =>
    obtain rfl := ok.inj hret
    split_ifs
    · exact hs.exchange hstack rfl rfl trivial
    · exact hs.returned hstack rfl rfl
  · next op stack hstack =>
    obtain rfl := ok.inj hret
    exact hs.returned hstack rfl rfl
  · next op stack hstack =>
    obtain rfl := ok.inj hret
    exact hs.returned hstack rfl rfl
  · next op stack hstack =>
    obtain rfl := ok.inj hret
    have hall := hs.nested
    rw [hstack] at hall
    refine hs.pop [.cancel op] hstack ?_ hall.2
    intro g hg
    rw [mem_singleton.mp hg]
    rfl
  · cases hret

lemma Sound.setOp {o : Operation} (hs : w.Sound none) (hknown : op ∈ w.heap.objects)
    (hstate : o.state = (w.heap.ops op).state)
    (hcancelled : (w.heap.ops op).cancelled → o.cancelled) :
    (w.withHeap (w.heap.setOp op o)).Sound none := by
  have hcases : ∀ op', op' = op ∧ (w.heap.setOp op o).ops op' = o ∨
      op' ≠ op ∧ (w.heap.setOp op o).ops op' = w.heap.ops op' := by
    intro op'
    by_cases heq : op' = op
    · exact .inl ⟨heq, heq ▸ update_self ..⟩
    · exact .inr ⟨heq, update_of_ne heq ..⟩
  apply hs.withHeap
  · intro op'
    rcases hcases op' with ⟨rfl, h⟩ | ⟨-, h⟩ <;> rw [h]
    exact hstate
  · intro op' hold
    rcases hcases op' with ⟨rfl, h⟩ | ⟨-, h⟩ <;> rw [h]
    · exact hcancelled hold
    · exact hold
  · exact fun q => rfl
  · intro op' hop'
    rcases hcases op' with ⟨rfl, -⟩ | ⟨-, h⟩
    · exact absurd hknown hop'
    · rw [h]
      exact hs.unknown op' hop'

lemma Sound.addDependency {dep : Option OpId} (hs : w.Sound none) (hknown : op ∈ w.heap.objects) :
    (w.withHeap (w.heap.addDependency op dep)).Sound none := by
  cases dep with
  | none => exact hs
  | some dep =>
    unfold OperationHeap.addDependency
    dsimp only
    split_ifs
    · exact hs
    · exact hs
    · exact hs.setOp hknown rfl id

lemma Sound.removeDependency {dep : Option OpId} (hs : w.Sound none) (hknown : op ∈ w.heap.objects) :
    (w.withHeap (w.heap.removeDependency op dep)).Sound none := by
  cases dep with
  | none => exact hs
  | some dep => exact hs.setOp hknown rfl id

lemma Sound.cancel (hs : w.Sound none) (hknown : op ∈ w.heap.objects) : (w.cancel op).Sound none := by
  unfold OperationWorld.cancel
  split_ifs
  · exact hs
  · exact (hs.push (f := .cancel op) trivial rfl).setOp hknown rfl fun _ => rfl

lemma Sound.alloc (hs : w.Sound none) (halloc : w.alloc op = .ok t) :
    t.Sound none ∧ op ∈ t.heap.objects ∧ t.heap.queues = w.heap.queues ∧ t.heap.ops op = .new := by
  obtain ⟨u, hfresh, ht⟩ := bind_eq_ok.mp halloc
  obtain rfl := ok.inj ht
  refine ⟨hs.withHeap (fun _ => rfl) (fun _ => id) (fun _ => rfl) ?_, mem_cons_self, rfl,
    hs.unknown op (assert_eq_ok.mp hfresh)⟩
  exact fun op' hop' => hs.unknown op' fun h => hop' (mem_cons_of_mem _ h)

lemma Sound.setSuspended (hs : w.Sound none) (suspended : Bool) :
    (w.setSuspended q suspended).Sound none := by
  have hset : (w.withHeap (w.heap.setQueue q ⟨(w.heap.queues q).operations, suspended⟩)).Sound none :=
    hs.setQueue fun op hop => hs.enqueued q op hop
  unfold OperationWorld.setSuspended
  dsimp only
  split_ifs
  · exact hset
  · rw [Sound.resumeFrom hset]
    exact hset

lemma queues_enqueue {q' : QueueId} : (w.enqueue q op).heap.queues q' =
    if q' = q then { w.heap.queues q with operations := (w.heap.queues q).operations ++ [op] }
    else w.heap.queues q' := by
  by_cases heq : q' = q
  · rw [if_pos heq, heq]
    exact update_self ..
  · rw [if_neg heq]
    exact update_of_ne heq ..

lemma Sound.addOperation (hs : w.Sound none) (hknown : op ∈ w.heap.objects)
    (htimely : w.Timely (.addOperation q (some op))) : (w.addOperation q op).Sound none := by
  unfold OperationWorld.addOperation
  dsimp only
  rcases htimely with hfinished | ⟨hresumed, hready⟩
  · have hstate := isFinished_iff.mp hfinished
    have hnot : (w.enqueue q op).heap.isReady op = false := by
      rw [← Bool.not_eq_true, isReady_iff]
      exact fun h => by simpa [hstate] using h.1.symm.trans hstate
    rw [hnot, Bool.and_false, if_neg Bool.false_ne_true]
    exact (hs.enqueue (by simp [hstate])).leave hfinished
  · obtain ⟨hstate, horder⟩ := isReady_iff.mp hready
    have henqueued : (w.enqueue q op).Sound (some op) := hs.exempt.enqueue fun h => absurd rfl h
    have hsuspended : ∀ q', op ∈ ((w.enqueue q op).heap.queues q').operations →
        ((w.enqueue q op).heap.queues q').suspended = false := by
      intro q' hmem
      rw [queues_enqueue] at hmem ⊢
      split_ifs at hmem ⊢ with heq
      · exact hresumed
      · exact absurd hstate (hs.enqueued q' op hmem (by rintro ⟨⟩))
    have hstarts : !((w.enqueue q op).heap.queues q).suspended && (w.enqueue q op).heap.isReady op := by
      rw [hsuspended q (by rw [queues_enqueue, if_pos rfl]; simp)]
      exact hready
    rw [if_pos hstarts]
    exact henqueued.start [.addOperation q op] hstate hknown (.inr ⟨q, rfl⟩)
      (fun _ => horder) hsuspended

lemma Sound.step {c : OperationCall} (hs : w.Sound none) (htimely : w.Timely c)
    (hstep : w.step c = .ok t) : t.Sound none := by
  have hof : ∀ {op t'}, (do w.known op; return t' : Checked OperationWorld) = .ok t →
      op ∈ w.heap.objects ∧ t' = t := by
    intro op t' h
    obtain ⟨u, hknown, ht⟩ := bind_eq_ok.mp h
    exact ⟨assert_eq_ok.mp hknown, ok.inj ht⟩
  cases c with
  | alloc op => exact (hs.alloc hstep).1
  | addDependency op dep =>
    obtain ⟨hknown, rfl⟩ := hof hstep
    exact hs.addDependency hknown
  | removeDependency op dep =>
    obtain ⟨hknown, rfl⟩ := hof hstep
    exact hs.removeDependency hknown
  | setCompletionBlock op block =>
    obtain ⟨hknown, rfl⟩ := hof hstep
    exact hs.setOp hknown rfl id
  | cancel op =>
    obtain ⟨hknown, rfl⟩ := hof hstep
    exact hs.cancel hknown
  | start op =>
    obtain ⟨hknown, rfl⟩ := hof hstep
    by_cases hready : (w.heap.ops op).state = .ready
    · exact hs.exempt.start [] hready hknown (.inl rfl) (htimely hready)
        fun q hmem => absurd hready (hs.enqueued q op hmem (by rintro ⟨⟩))
    · rw [OperationWorld.start, if_pos hready]
      exact hs
  | addOperation q op =>
    cases op with
    | none =>
      obtain rfl := ok.inj hstep
      exact hs
    | some op =>
      obtain ⟨hknown, rfl⟩ := hof hstep
      exact hs.addOperation hknown htimely
  | addOperationWithBlock q block op =>
    cases block with
    | none =>
      obtain rfl := ok.inj hstep
      exact hs
    | some block =>
      obtain ⟨v, halloc, ht⟩ := bind_eq_ok.mp hstep
      obtain rfl := ok.inj ht
      obtain ⟨hv, hknown, hqueues, hnew⟩ := hs.alloc halloc
      refine hv.addOperation hknown (.inr ⟨?_, isReady_iff.mpr ?_⟩)
      · rw [hqueues]
        exact htimely
      · rw [hnew]
        exact ⟨rfl, (by rintro _ ⟨⟩)⟩
  | setSuspended q suspended =>
    obtain rfl := ok.inj hstep
    exact hs.setSuspended suspended
  | waitUntilAllOperationsAreFinished q =>
    obtain rfl := ok.inj hstep
    exact hs
  | ret => exact hs.doReturn hstep

lemma not_lossless_addOperation (htimely : ¬ w.Timely (.addOperation q (some op))) :
    ¬ (w.addOperation q op).Lossless := by
  obtain ⟨hunfinished, hnot⟩ := not_or.mp htimely
  have hmem : op ∈ ((w.enqueue q op).heap.queues q).operations := by
    rw [queues_enqueue, if_pos rfl]
    exact mem_append_right _ mem_cons_self
  have hwaits : ¬ (!((w.enqueue q op).heap.queues q).suspended && (w.enqueue q op).heap.isReady op) := by
    rw [queues_enqueue, if_pos rfl, Bool.and_eq_true, Bool.not_eq_true']
    exact hnot
  intro hlossless
  unfold OperationWorld.addOperation OperationWorld.leave at hlossless
  dsimp only at hlossless
  rw [if_neg hwaits, if_pos hmem] at hlossless
  exact hunfinished (hlossless.keeps q op (w.enqueue q op).heap mem_cons_self)

lemma not_lossless_start (htimely : ¬ w.Timely (.start op)) : ¬ (w.start op).Lossless := by
  unfold Timely at htimely
  push Not at htimely
  obtain ⟨hready, hcancelled, dep, hdep, hunfinished⟩ := htimely
  intro hlossless
  unfold OperationWorld.start at hlossless
  rw [if_neg (not_not.mpr hready), if_neg (by simp [hcancelled])] at hlossless
  exact hunfinished (hlossless.afterDependencies op _ mem_cons_self dep hdep)

lemma not_lossless_step {c : OperationCall} (hs : w.Sound none) (htimely : ¬ w.Timely c)
    (hstep : w.step c = .ok t) :
    ¬ t.Lossless := by
  cases c with
  | start op =>
    obtain ⟨u, -, ht⟩ := bind_eq_ok.mp hstep
    obtain rfl := ok.inj ht
    exact not_lossless_start htimely
  | addOperation q op =>
    cases op with
    | none => exact absurd trivial htimely
    | some op =>
      obtain ⟨u, -, ht⟩ := bind_eq_ok.mp hstep
      obtain rfl := ok.inj ht
      exact not_lossless_addOperation htimely
  | addOperationWithBlock q block op =>
    cases block with
    | none => exact absurd trivial htimely
    | some block =>
      obtain ⟨v, halloc, ht⟩ := bind_eq_ok.mp hstep
      obtain rfl := ok.inj ht
      obtain ⟨-, -, hqueues, hnew⟩ := hs.alloc halloc
      apply not_lossless_addOperation
      rintro (hfinished | ⟨hresumed, -⟩)
      · rw [isFinished_iff, hnew] at hfinished
        exact absurd hfinished (by decide)
      · rw [hqueues] at hresumed
        exact htimely hresumed
  | _ => exact absurd trivial htimely

end OperationWorld

/-- An operation with a dependency and one made from a block; a queue is suspended and resumed while
the first one runs, and the dependency is added again when it has finished. -/
def timelyCalls : List OperationCall :=
  [.alloc 1, .alloc 2, .addDependency 2 (some 1), .addOperation 7 (some 1), .ret,
    .setSuspended 7 true, .setSuspended 7 false, .ret, .ret, .ret, .addOperation 7 (some 2), .ret,
    .addOperationWithBlock 8 (some 5) 3, .cancel 3, .ret, .addOperation 7 (some 1)]

end TouchHle.Foundation
