import Mathlib

/-! The lazy deleter of DLPack tensors (`LazyDLManagedTensorDeleter`, python/holoscan/core/tensor.cpp).
`add` queues the pointer of a released capsule; one detached thread, started by the constructor
that finds no instance and stopped by the `release` that drops the last one, swaps the queue out
and calls the deleters. A world holds the static members of the class, where each thread is, and
three histories. A step is one section under `s_mutex`, one atomic update of `s_instance_count`,
or one move of the deleter thread with the lock released, the write of `s_is_running = false`
after the loop and the thread's return being two; the steps of all threads interleave freely.
The mutex the fork handlers hold from `on_fork_prepare` to `on_fork_parent` or `on_fork_child`
only rules interleavings out, so what holds of every run here holds of the code's runs. -/
namespace HoloscanLowering.TensorDeleter

/-- Where a deleter thread is in `run`: in `s_cv.wait` at the top of the loop; calling the
deleters of the swapped-out `local_queue` with the lock released; out of the loop before
`s_is_running = false`; past that write, logging before it returns. -/
inductive Thread (τ : Type)
  | waiting
  | deleting (localQueue : List τ)
  | exiting
  | finished
  deriving DecidableEq

def Thread.batch {τ : Type} : Thread τ → List τ
  | .deleting localQueue => localQueue
  | _ => []

/-- A thread that has not written `s_is_running = false` yet. -/
def Thread.active {τ : Type} : Thread τ → Bool
  | .finished => false
  | _ => true

/-- Where a client thread is in the constructor or in `release`: holding no instance; past a
`fetch_add` that returned 0, busy-waiting until `!s_stop && !s_is_running`; out of that wait,
before the section that starts the deleter thread; holding an instance; past a `fetch_sub` that
returned 1, before the section that sets `s_stop`; busy-waiting until `!s_is_running`; out of
that wait, before the section that clears `s_stop`. -/
inductive Client
  | idle
  | constructing
  | starting
  | live
  | stopping
  | releasing
  | finishing
  deriving DecidableEq

def Client.holds : Client → Bool
  | .constructing | .starting | .live => true
  | _ => false

def Client.starter : Client → Bool
  | .constructing | .starting => true
  | _ => false

def Client.isStarting : Client → Bool
  | .starting => true
  | _ => false

/-- The static members of the class (`s_dlmanaged_tensors_queue` front first), the deleter threads,
the client threads, and three histories: every pointer `add` queued, every pointer a deleter
thread popped (having called its deleter where the pointer and its deleter are not null), and the
local queues of the deleter threads a fork left behind. -/
structure World (τ : Type) where
  dlmanagedTensorsQueue : List τ
  stop : Bool
  isRunning : Bool
  cvDoNotWaitThread : Bool
  pthreadAtforkRegistered : Bool
  instanceCount : Nat
  threads : List (Thread τ)
  clients : List Client
  added : List τ
  deleted : List τ
  abandoned : List τ

variable {τ : Type}

def initial (n : Nat) : World τ :=
  ⟨[],false,false,false,false,0,[],List.replicate n .idle,[],[],[]⟩

/-- The deleter thread `k` past `s_cv.wait`: it leaves the loop when stopped with an empty queue,
goes round again while a fork is prepared, and otherwise swaps the queue out. -/
def afterWait (s : World τ) (k : Nat) : World τ :=
  if s.stop && s.dlmanagedTensorsQueue.isEmpty then { s with threads := s.threads.set k .exiting }
  else if s.cvDoNotWaitThread then s
  else { s with dlmanagedTensorsQueue := [],
                threads := s.threads.set k (.deleting s.dlmanagedTensorsQueue) }

/-- The child of a fork: only the forking thread goes on, so the deleter threads and their local
queues are gone, and `on_fork_child` clears the flag where the handlers are registered. The
other client threads are gone too; the model lets them go on, which only adds runs. -/
def forkChild (s : World τ) : World τ :=
  { s with threads := [], abandoned := s.abandoned ++ s.threads.flatMap Thread.batch,
           cvDoNotWaitThread := if s.pthreadAtforkRegistered then false else s.cvDoNotWaitThread }

/-- One step of one thread. A run follows one process: at a fork it goes on as the parent
(`onForkParent`) or as the child (`onForkChild`). -/
inductive Step : World τ → World τ → Prop
  -- the constructor's `fetch_add`; the client that finds no instance goes on to start the thread
  | construct {s : World τ} (i : Nat) (hi : s.clients[i]? = some .idle) :
      Step s { s with instanceCount := s.instanceCount + 1,
                      clients := s.clients.set i (if s.instanceCount = 0 then .constructing else .live) }
  -- the section that ends the constructor's busy wait
  | constructWait {s : World τ} (i : Nat) (hi : s.clients[i]? = some .constructing)
      (hstop : s.stop = false) (hrun : s.isRunning = false) :
      Step s { s with clients := s.clients.set i .starting }
  -- the section that registers the fork and exit handlers and starts the detached thread
  | startThread {s : World τ} (i : Nat) (hi : s.clients[i]? = some .starting) :
      Step s { s with pthreadAtforkRegistered := true, isRunning := true,
                      threads := s.threads ++ [.waiting], clients := s.clients.set i .live }
  -- the `fetch_sub` of `release`; the client that drops the last instance goes on to stop the thread
  | release {s : World τ} (i : Nat) (hi : s.clients[i]? = some .live) :
      Step s { s with instanceCount := s.instanceCount - 1,
                      clients := s.clients.set i (if s.instanceCount = 1 then .stopping else .idle) }
  | requestStop {s : World τ} (i : Nat) (hi : s.clients[i]? = some .stopping) :
      Step s { s with stop := true, clients := s.clients.set i .releasing }
  | releaseWait {s : World τ} (i : Nat) (hi : s.clients[i]? = some .releasing)
      (hrun : s.isRunning = false) :
      Step s { s with clients := s.clients.set i .finishing }
  | clearStop {s : World τ} (i : Nat) (hi : s.clients[i]? = some .finishing) :
      Step s { s with stop := false, clients := s.clients.set i .idle }
  -- `add`, from any thread
  | add {s : World τ} (x : τ) :
      Step s { s with dlmanagedTensorsQueue := s.dlmanagedTensorsQueue ++ [x], added := s.added ++ [x] }
  -- `s_cv.wait` returns once its predicate holds
  | wake {s : World τ} (k : Nat) (hk : s.threads[k]? = some .waiting)
      (hw : (s.stop || !s.dlmanagedTensorsQueue.isEmpty || s.cvDoNotWaitThread) = true) :
      Step s (afterWait s k)
  -- the deleter of the front of the local queue is called, and the front popped
  | delete {s : World τ} (k : Nat) (x : τ) (rest : List τ) (hk : s.threads[k]? = some (.deleting (x::rest))) :
      Step s { s with threads := s.threads.set k (.deleting rest), deleted := s.deleted ++ [x] }
  -- the local queue is empty: back to the top of the loop
  | drained {s : World τ} (k : Nat) (hk : s.threads[k]? = some (.deleting [])) :
      Step s { s with threads := s.threads.set k .waiting }
  -- `s_is_running = false`, written after the loop without the lock
  | clearRunning {s : World τ} (k : Nat) (hk : s.threads[k]? = some .exiting) :
      Step s { s with isRunning := false, threads := s.threads.set k .finished }
  -- the final log line and the return: the thread ends
  | finish {s : World τ} (k : Nat) (hk : s.threads[k]? = some .finished) :
      Step s { s with threads := s.threads.eraseIdx k }
  | onExit {s : World τ} (h : s.pthreadAtforkRegistered = true) : Step s { s with stop := true }
  | onForkPrepare {s : World τ} (h : s.pthreadAtforkRegistered = true) :
      Step s { s with cvDoNotWaitThread := true }
  | onForkParent {s : World τ} (h : s.pthreadAtforkRegistered = true) :
      Step s { s with cvDoNotWaitThread := false }
  | onForkChild {s : World τ} : Step s (forkChild s)

def Reachable (n : Nat) (s : World τ) : Prop := Relation.ReflTransGen Step (initial n) s

def inFlight (threads : List (Thread τ)) : List τ := threads.flatMap Thread.batch

def World.starting (s : World τ) : Nat := s.clients.countP Client.isStarting

section Lists

variable {α : Type} {l : List α} {i : Nat} {b : α}

theorem exists_split (h : l[i]? = some b) :
    ∃ u v, l = u ++ b :: v ∧ (∀ a, l.set i a = u ++ a :: v) ∧ l.eraseIdx i = u ++ v := by
  obtain ⟨hi,rfl⟩ := List.getElem?_eq_some_iff.mp h
  refine ⟨l.take i,l.drop (i+1),?_,fun a => ?_,List.eraseIdx_eq_take_drop_succ l i⟩
  · conv_lhs => rw [← List.take_append_drop i l,List.drop_eq_getElem_cons hi]
  · rw [List.set_eq_take_append_cons_drop,if_pos hi]

theorem countP_set (h : l[i]? = some b) (a : α) (p : α → Bool) :
    (l.set i a).countP p + (if p b then 1 else 0) = l.countP p + (if p a then 1 else 0) := by
  obtain ⟨u,v,hl,hs,-⟩ := exists_split h
  rw [hs a,hl]
  simp only [List.countP_append,List.countP_cons]
  omega

theorem countP_set_eq {p : α → Bool} (h : l[i]? = some b) {a : α} (hp : p a = p b) :
    (l.set i a).countP p = l.countP p := by
  have := countP_set h a p
  rw [hp] at this
  omega

theorem countP_eraseIdx {p : α → Bool} (h : l[i]? = some b) (hp : p b = false) :
    (l.eraseIdx i).countP p = l.countP p := by
  obtain ⟨u,v,hl,-,he⟩ := exists_split h
  rw [he,hl]
  simp [hp]

theorem countP_pos_of_getElem? {p : α → Bool} (h : l[i]? = some b) (hp : p b = true) :
    0 < l.countP p :=
  List.countP_pos_iff.mpr ⟨b,List.getElem?_mem h,hp⟩

theorem getElem?_set_of_ne {j : Nat} {c a : α} (hj : l[j]? = some c) (hi : l[i]? = some b)
    (hcb : c ≠ b) : (l.set j a)[i]? = some b := by
  rw [List.getElem?_set_ne fun e => hcb (by subst e; simpa [hj] using hi)]
  exact hi

end Lists

theorem starting_le_starter (l : List Client) :
    l.countP Client.isStarting ≤ l.countP Client.starter :=
  List.countP_mono_left fun c _ => by cases c <;> simp [Client.isStarting,Client.starter]

theorem starter_le_holds (l : List Client) : l.countP Client.starter ≤ l.countP Client.holds :=
  List.countP_mono_left fun c _ => by cases c <;> simp [Client.starter,Client.holds]

section Threads

variable {l : List (Thread τ)} {k : Nat} {b : Thread τ}

theorem inFlight_eq_nil (h : l.countP Thread.active = 0) : inFlight l = [] :=
  List.flatMap_eq_nil_iff.mpr fun b hb => by
    have := List.countP_eq_zero.mp h b hb
    cases b <;> simp [Thread.active,Thread.batch] at this ⊢

theorem inFlight_of_active (hc : l.countP Thread.active ≤ 1) (hk : l[k]? = some b)
    (hb : b.active = true) : inFlight l = b.batch ∧ ∀ a, inFlight (l.set k a) = a.batch := by
  obtain ⟨u,v,hl,hs,-⟩ := exists_split hk
  have hcu : u.countP Thread.active + v.countP Thread.active = 0 := by
    rw [hl] at hc
    simp [hb] at hc
    omega
  have hu := inFlight_eq_nil (l := u) (by omega)
  have hv := inFlight_eq_nil (l := v) (by omega)
  simp only [inFlight] at hu hv
  exact ⟨by simp [hl,inFlight,hu,hv],fun a => by simp [hs,inFlight,hu,hv]⟩

theorem inFlight_eraseIdx (hk : l[k]? = some b) (hb : b.batch = []) :
    inFlight (l.eraseIdx k) = inFlight l := by
  obtain ⟨u,v,hl,-,he⟩ := exists_split hk
  rw [he,hl]
  simp [inFlight,hb]

end Threads

/-! ### The invariant of every run -/

/-- The instance count counts the clients holding an instance, and at most one of them found
none. -/
structure Counted (instanceCount : Nat) (clients : List Client) : Prop where
  count : instanceCount = clients.countP Client.holds
  starters : clients.countP Client.starter ≤ 1

/-- At most one deleter thread before its flag write; none while `s_is_running` is clear; and a
client out of the constructor's busy wait finds neither. A thread past its flag write may still
be logging when the next one starts. -/
structure Single (starting : Nat) (isRunning : Bool) (threads : List (Thread τ)) : Prop where
  single : threads.countP Thread.active ≤ 1
  running : isRunning = false → threads.countP Thread.active = 0
  starting : 0 < starting → threads.countP Thread.active = 0 ∧ isRunning = false

/-- `s_is_running` set with no deleter thread and no client about to start one: what a fork
leaves in the child while the deleter thread runs. -/
structure Stalled (starting : Nat) (isRunning : Bool) (threads : List (Thread τ)) : Prop where
  running : isRunning = true
  noThread : threads = []
  noStarter : starting = 0

/-- What holds in every world a run reaches: the three above, a fork that left a local queue
behind leaves the child stalled, and the pointers are handed to their deleters (or left behind
by a fork) in the order `add` queued them. -/
structure Inv (s : World τ) : Prop where
  counted : Counted s.instanceCount s.clients
  single : Single s.starting s.isRunning s.threads
  orphaned : s.abandoned ≠ [] → Stalled s.starting s.isRunning s.threads
  fifo : s.deleted ++ s.abandoned ++ inFlight s.threads ++ s.dlmanagedTensorsQueue = s.added

theorem Inv.initial (n : Nat) : Inv (initial n : World τ) :=
  ⟨⟨by simp [TensorDeleter.initial,List.countP_replicate,Client.holds],
    by simp [TensorDeleter.initial,List.countP_replicate,Client.starter]⟩,
   ⟨by simp [TensorDeleter.initial],fun _ => rfl,fun _ => ⟨rfl,rfl⟩⟩,
   fun h => absurd rfl h,rfl⟩

theorem Counted.set {n : Nat} {l : List Client} (hc : Counted n l) {i : Nat} {c : Client}
    (hi : l[i]? = some c) {n' : Nat} (c' : Client)
    (hn : n' + (if c.holds then 1 else 0) = n + (if c'.holds then 1 else 0))
    (hst : c'.starter = true → c.starter = false → n = 0) : Counted n' (l.set i c') := by
  have h₁ := countP_set hi c' Client.holds
  have h₂ := countP_set hi c' Client.starter
  have := hc.count
  have := hc.starters
  have := starter_le_holds l
  refine ⟨by omega,?_⟩
  cases hc' : c'.starter <;> cases hc₀ : c.starter <;> simp only [hc',hc₀] at h₂ hst <;> simp at h₂ hst <;> omega

section Steps

variable {s : World τ} {i k : Nat} {c : Client}

theorem Single.of_active {st : Nat} {r : Bool} {thr : List (Thread τ)} (h : Single st r thr)
    (hpos : 0 < thr.countP Thread.active) : r = true ∧ st = 0 :=
  ⟨by by_contra hr; simp [h.running (by simpa using hr)] at hpos,
   by by_contra hst; simp [(h.starting (Nat.pos_of_ne_zero hst)).1] at hpos⟩

theorem Inv.abandoned_eq_nil {b : Thread τ} (hs : Inv s) (hk : s.threads[k]? = some b) :
    s.abandoned = [] := by
  by_contra h
  simp [(hs.orphaned h).noThread] at hk

theorem Inv.of_active {b : Thread τ} (hs : Inv s) (hk : s.threads[k]? = some b) (hb : b.active = true) :
    s.isRunning = true ∧ s.starting = 0 ∧ s.abandoned = [] ∧
      inFlight s.threads = b.batch ∧ ∀ a, inFlight (s.threads.set k a) = a.batch :=
  have h := hs.single.of_active (countP_pos_of_getElem? hk hb)
  ⟨h.1,h.2,hs.abandoned_eq_nil hk,inFlight_of_active hs.single.single hk hb⟩

theorem Inv.move (hs : Inv s) (hi : s.clients[i]? = some c) (c' : Client)
    (hst : c'.isStarting = c.isStarting) (n : Nat) (b : Bool) (hc : Counted n (s.clients.set i c')) :
    Inv { s with instanceCount := n, stop := b, clients := s.clients.set i c' } := by
  have h : World.starting { s with instanceCount := n, stop := b, clients := s.clients.set i c' } =
      s.starting := countP_set_eq hi hst
  exact ⟨hc,h ▸ hs.single,fun hab => h ▸ hs.orphaned hab,hs.fifo⟩

theorem Inv.constructWait (hs : Inv s) (hi : s.clients[i]? = some .constructing)
    (hrun : s.isRunning = false) : Inv { s with clients := s.clients.set i .starting } :=
  ⟨hs.counted.set hi _ rfl nofun,⟨hs.single.single,hs.single.running,fun _ => ⟨hs.single.running hrun,hrun⟩⟩,
   fun hab => absurd (hs.orphaned hab).running (by simp [hrun]),hs.fifo⟩

theorem Inv.startThread (hs : Inv s) (hi : s.clients[i]? = some .starting) :
    Inv { s with pthreadAtforkRegistered := true, isRunning := true,
                 threads := s.threads ++ [.waiting], clients := s.clients.set i .live } := by
  have hpos := countP_pos_of_getElem? hi (p := Client.isStarting) rfl
  have hthr := (hs.single.starting hpos).1
  have h₃ := countP_set hi .live Client.isStarting
  have := starting_le_starter s.clients
  have := hs.counted.starters
  simp [Client.isStarting] at h₃
  refine ⟨hs.counted.set hi _ rfl nofun,
    ⟨by simp [hthr,Thread.active],nofun,fun h => absurd h (by simp only [World.starting]; omega)⟩,
    fun hab => absurd (hs.orphaned hab).noStarter hpos.ne',by simpa [inFlight,Thread.batch] using hs.fifo⟩

theorem Inv.add (hs : Inv s) (x : τ) :
    Inv { s with dlmanagedTensorsQueue := s.dlmanagedTensorsQueue ++ [x], added := s.added ++ [x] } :=
  ⟨hs.counted,hs.single,hs.orphaned,by dsimp only; rw [← hs.fifo]; simp⟩

/-- A move of the active deleter thread from `b` to `a` that hands over what its local queue
loses keeps the invariant; it clears `s_is_running` exactly when the thread writes its flag. -/
theorem Inv.moveThread {b : Thread τ} (hs : Inv s) (hk : s.threads[k]? = some b) (hb : b.active = true)
    (a : Thread τ) {t : World τ} (ht : t.threads = s.threads.set k a) (hcl : t.clients = s.clients)
    (hn : t.instanceCount = s.instanceCount) (hrun : t.isRunning = a.active)
    (hab : t.abandoned = s.abandoned)
    (hfifo : s.deleted ++ b.batch ++ s.dlmanagedTensorsQueue = s.added →
      t.deleted ++ a.batch ++ t.dlmanagedTensorsQueue = t.added) : Inv t := by
  obtain ⟨-,hst,hab₁,hf₀,hf₁⟩ := hs.of_active hk hb
  have hc := countP_set hk a Thread.active
  have := hs.single.single
  have := countP_pos_of_getElem? hk hb
  have hst' : t.starting = 0 := by rw [World.starting,hcl]; exact hst
  have hca : t.threads.countP Thread.active = if a.active then 1 else 0 := by
    rw [ht]
    simp only [hb,if_true] at hc
    split_ifs at hc ⊢ <;> omega
  refine ⟨hn ▸ hcl ▸ hs.counted,⟨by split_ifs at hca <;> omega,fun h => by rw [hca,← hrun,h]; rfl,fun h => by omega⟩,
    fun h => absurd (hab.trans hab₁) h,?_⟩
  have hf := hs.fifo
  rw [hf₀,hab₁] at hf
  rw [ht,hf₁,hab,hab₁]
  simpa using hfifo (by simpa using hf)

theorem Inv.wake (hs : Inv s) (hk : s.threads[k]? = some .waiting) : Inv (afterWait s k) := by
  have hrun := (hs.of_active hk rfl).1
  unfold afterWait
  split_ifs
  · exact hs.moveThread hk rfl .exiting rfl rfl rfl hrun rfl id
  · exact hs
  · exact hs.moveThread hk rfl (.deleting s.dlmanagedTensorsQueue) rfl rfl rfl hrun rfl (by simp [Thread.batch])

theorem Inv.finish (hs : Inv s) (hk : s.threads[k]? = some .finished) :
    Inv { s with threads := s.threads.eraseIdx k } := by
  have hc := countP_eraseIdx hk (p := Thread.active) rfl
  refine ⟨hs.counted,⟨hc ▸ hs.single.single,fun h => hc ▸ hs.single.running h,fun h => hc ▸ hs.single.starting h⟩,
    fun h => absurd (hs.abandoned_eq_nil hk) h,?_⟩
  rw [← hs.fifo]
  simp only [inFlight_eraseIdx hk rfl]

theorem Inv.forkChild (hs : Inv s) : Inv (forkChild s) := by
  refine ⟨hs.counted,⟨by simp [TensorDeleter.forkChild],fun _ => rfl,fun h => ⟨rfl,(hs.single.starting h).2⟩⟩,
    fun h => ?_,by simpa [TensorDeleter.forkChild,inFlight] using hs.fifo⟩
  by_cases hab : s.abandoned = []
  · have hpos : 0 < s.threads.countP Thread.active := Nat.pos_of_ne_zero fun h0 => h (by
      show s.abandoned ++ inFlight s.threads = []
      rw [hab,inFlight_eq_nil h0]
      rfl)
    obtain ⟨hr,hst⟩ := hs.single.of_active hpos
    exact ⟨hr,rfl,hst⟩
  · have := hs.orphaned hab
    exact ⟨this.running,rfl,this.noStarter⟩

/-- Every step keeps the invariant. -/
theorem Inv.step {t : World τ} (h : Step s t) (hs : Inv s) : Inv t := by
  cases h with
  | construct i hi =>
    by_cases h0 : s.instanceCount = 0
    · rw [if_pos h0]
      exact hs.move hi .constructing rfl _ _ (hs.counted.set hi _ rfl fun _ _ => h0)
    · rw [if_neg h0]
      exact hs.move hi .live rfl _ _ (hs.counted.set hi _ rfl nofun)
  | constructWait i hi _ hrun => exact hs.constructWait hi hrun
  | startThread i hi => exact hs.startThread hi
  | release i hi =>
    have h₁ := hs.counted.count
    have h₂ := countP_pos_of_getElem? hi (p := Client.holds) rfl
    have hn : s.instanceCount - 1 + 1 = s.instanceCount + 0 := by omega
    by_cases h1 : s.instanceCount = 1
    · rw [if_pos h1]
      exact hs.move hi .stopping rfl _ _ (hs.counted.set hi _ hn nofun)
    · rw [if_neg h1]
      exact hs.move hi .idle rfl _ _ (hs.counted.set hi _ hn nofun)
  | requestStop i hi => exact hs.move hi .releasing rfl _ _ (hs.counted.set hi _ rfl nofun)
  | releaseWait i hi _ => exact hs.move hi .finishing rfl _ _ (hs.counted.set hi _ rfl nofun)
  | clearStop i hi => exact hs.move hi .idle rfl _ _ (hs.counted.set hi _ rfl nofun)
  | add x => exact hs.add x
  | wake k hk _ => exact hs.wake hk
  | delete k x rest hk =>
    exact hs.moveThread hk rfl (.deleting rest) rfl rfl rfl (hs.of_active hk rfl).1 rfl (by simp [Thread.batch])
  | drained k hk => exact hs.moveThread hk rfl .waiting rfl rfl rfl (hs.of_active hk rfl).1 rfl id
  | clearRunning k hk => exact hs.moveThread hk rfl .finished rfl rfl rfl rfl rfl id
  | finish k hk => exact hs.finish hk
  | onExit | onForkPrepare | onForkParent => exact ⟨hs.counted,hs.single,hs.orphaned,hs.fifo⟩
  | onForkChild => exact hs.forkChild

end Steps

theorem Reachable.inv {n : Nat} {s : World τ} (h : Reachable n s) : Inv s := by
  induction h with
  | refl => exact Inv.initial n
  | tail _ hst ih => exact ih.step hst

/-! ### A fork taken while the deleter thread runs -/

/-- `t` is stalled, has handed no pointer to a deleter that `s` had not, and keeps the clients of
`s` that busy-wait in the constructor or in `release` where they are. -/
structure StaysStalled (s t : World τ) : Prop where
  stalled : Stalled t.starting t.isRunning t.threads
  deleted : t.deleted = s.deleted
  waiting : ∀ (i : Nat) (c : Client), (c = .constructing ∨ c = .releasing) → s.clients[i]? = some c →
    t.clients[i]? = some c

theorem StaysStalled.trans {s t u : World τ} (h₁ : StaysStalled s t) (h₂ : StaysStalled t u) :
    StaysStalled s u :=
  ⟨h₂.stalled,h₂.deleted.trans h₁.deleted,fun i c hc hi => h₂.waiting i c hc (h₁.waiting i c hc hi)⟩

section Stalled

variable {s : World τ} {j : Nat} {c₀ : Client}

theorem Stalled.move (hs : Stalled s.starting s.isRunning s.threads) (hj : s.clients[j]? = some c₀)
    (c' : Client) (hst : c'.isStarting = c₀.isStarting) (hc₀ : c₀ ≠ .constructing ∧ c₀ ≠ .releasing)
    (n : Nat) (b : Bool) :
    StaysStalled s { s with instanceCount := n, stop := b, clients := s.clients.set j c' } := by
  refine ⟨⟨hs.running,hs.noThread,(countP_set_eq hj hst).trans hs.noStarter⟩,rfl,fun i c hc hi => ?_⟩
  exact getElem?_set_of_ne hj hi (by rcases hc with rfl | rfl <;> simp [hc₀])

theorem Stalled.same {t : World τ} (hs : Stalled s.starting s.isRunning s.threads)
    (hcl : t.clients = s.clients) (hrun : t.isRunning = s.isRunning) (hthr : t.threads = s.threads)
    (hd : t.deleted = s.deleted) : StaysStalled s t := by
  have hst : t.starting = s.starting := by simp only [World.starting,hcl]
  exact ⟨by rw [hst,hrun,hthr]; exact hs,hd,fun i c _ hi => hcl ▸ hi⟩

/-- No step leaves a stalled world: with no deleter thread nothing is handed to a deleter, and
with `s_is_running` set neither busy wait ends and no thread is started. -/
theorem Stalled.step {t : World τ} (h : Step s t) (hs : Stalled s.starting s.isRunning s.threads) :
    StaysStalled s t := by
  have hthr : ∀ {k : Nat} {b : Thread τ}, s.threads[k]? = some b → False := fun hk => by
    simp [hs.noThread] at hk
  cases h with
  | construct j hj | release j hj => exact hs.move hj _ (by split <;> rfl) (by simp) _ _
  | constructWait _ _ _ hrun | releaseWait _ _ hrun => exact absurd hs.running (by simp [hrun])
  | startThread _ hi => exact absurd hs.noStarter (countP_pos_of_getElem? hi rfl).ne'
  | requestStop j hj => exact hs.move hj .releasing rfl (by simp) _ _
  | clearStop j hj => exact hs.move hj .idle rfl (by simp) _ _
  | wake _ hk | delete _ _ _ hk | drained _ hk | clearRunning _ hk | finish _ hk => exact (hthr hk).elim
  | add | onExit | onForkPrepare | onForkParent => exact hs.same rfl rfl rfl rfl
  | onForkChild => exact hs.same rfl rfl hs.noThread.symm rfl

theorem Stalled.run {t : World τ} (h : Relation.ReflTransGen Step s t)
    (hs : Stalled s.starting s.isRunning s.threads) : StaysStalled s t := by
  induction h with
  | refl => exact ⟨hs,rfl,fun _ _ _ hi => hi⟩
  | tail _ hst ih => exact ih.trans (Stalled.step hst ih.stalled)

end Stalled

/-! ### What every run keeps -/

section Runs

variable {n : Nat} {s : World τ}

/-- The deleters are called in the order `add` queued the pointers: what was handed to a deleter,
then what a fork left behind, then the local queues of the deleter threads, then the queue, is
everything that was added. -/
theorem deleted_in_add_order (h : Reachable n s) :
    s.deleted ++ s.abandoned ++ inFlight s.threads ++ s.dlmanagedTensorsQueue = s.added :=
  h.inv.fifo

theorem one_deleter_before_flag_write (h : Reachable n s) :
    s.threads.countP Thread.active ≤ 1 ∧ (s.isRunning = false → s.threads.countP Thread.active = 0) :=
  ⟨h.inv.single.single,h.inv.single.running⟩

theorem afterWait_exit_drained {k : Nat} (h : Reachable n s) (hk : s.threads[k]? = some .waiting)
    (hexit : (afterWait s k).threads[k]? = some .exiting) :
    s.dlmanagedTensorsQueue = [] ∧ s.deleted ++ s.abandoned = s.added := by
  obtain ⟨-,-,-,hf₀,-⟩ := h.inv.of_active hk rfl
  have hf := h.inv.fifo
  have hlt := (List.getElem?_eq_some_iff.mp hk).1
  unfold afterWait at hexit
  split_ifs at hexit with hq
  · have hq : s.dlmanagedTensorsQueue = [] := (by simpa using hq : _ ∧ _).2
    rw [hf₀,hq] at hf
    exact ⟨hq,by simpa [Thread.batch] using hf⟩
  · simp [hk] at hexit
  · simp [List.getElem?_set,hlt] at hexit

/-- A child forked while the deleter thread runs has `s_is_running` set and no deleter thread for
good: it never hands another pointer to a deleter, and a client busy-waiting in the constructor
or in `release`, the last one included, waits forever. -/
theorem forked_child_stalls {u : World τ} (h : Reachable n s) (hrun : s.isRunning = true)
    (hu : Relation.ReflTransGen Step (forkChild s) u) :
    u.isRunning = true ∧ u.threads = [] ∧ u.deleted = s.deleted ∧
      ∀ (i : Nat) (c : Client) t, (c = .constructing ∨ c = .releasing) → u.clients[i]? = some c →
        Relation.ReflTransGen Step u t → t.clients[i]? = some c := by
  have h₀ : Stalled (forkChild s).starting (forkChild s).isRunning (forkChild s).threads := by
    refine ⟨hrun,rfl,?_⟩
    by_contra hne
    simp [(h.inv.single.starting (Nat.pos_of_ne_zero hne)).2] at hrun
  obtain ⟨h₁,h₂,-⟩ := h₀.run hu
  exact ⟨h₁.running,h₁.noThread,h₂,fun i c t hc hi ht => (h₁.run ht).waiting i c hc hi⟩

theorem deleting_run (s : World τ) (b : List τ) (hs : s.threads = [.deleting b]) :
    ∃ t, Relation.ReflTransGen Step s t ∧ t.threads = [.deleting []] ∧ t.deleted = s.deleted ++ b ∧
      t.dlmanagedTensorsQueue = s.dlmanagedTensorsQueue ∧ t.added = s.added := by
  induction b generalizing s with
  | nil => exact ⟨s,.refl,hs,by simp,rfl,rfl⟩
  | cons x rest ih =>
    have hk : s.threads[0]? = some (.deleting (x::rest)) := by rw [hs]; rfl
    obtain ⟨t,ht,h₁,h₂,h₃,h₄⟩ :=
      ih { s with threads := s.threads.set 0 (.deleting rest), deleted := s.deleted ++ [x] } (by rw [hs]; rfl)
    exact ⟨t,.head (.delete 0 x rest hk) ht,h₁,by rw [h₂]; simp,h₃,h₄⟩

/-- A waiting deleter thread, with no fork being prepared, drains the queue by itself: a run of its
own steps hands every queued pointer to its deleter, in order, and brings it back to the wait. -/
theorem deleter_drains_queue (hthr : s.threads = [.waiting]) (hw : s.cvDoNotWaitThread = false) :
    ∃ t, Relation.ReflTransGen Step s t ∧ t.threads = [.waiting] ∧
      t.deleted = s.deleted ++ s.dlmanagedTensorsQueue ∧ t.dlmanagedTensorsQueue = [] ∧ t.added = s.added := by
  cases hq : s.dlmanagedTensorsQueue with
  | nil => exact ⟨s,.refl,hthr,by simp,hq,rfl⟩
  | cons x rest =>
    have hk : s.threads[0]? = some .waiting := by rw [hthr]; rfl
    have hwake : (afterWait s 0).threads = [.deleting (x::rest)] := by simp [afterWait,hq,hw,hthr]
    obtain ⟨t,ht,h₁,h₂,h₃,h₄⟩ := deleting_run (afterWait s 0) (x::rest) hwake
    have hd : Step t { t with threads := t.threads.set 0 .waiting } := .drained 0 (by rw [h₁]; rfl)
    refine ⟨_,((Relation.ReflTransGen.single (.wake 0 hk (by simp [hq]))).trans ht).tail hd,
      by rw [h₁]; rfl,?_,?_,?_⟩ <;> simp [h₂,h₃,h₄,afterWait,hq,hw]

end Runs

/-- One client starts the thread and adds a pointer, which the thread deletes; then the client
drops its instance and asks the thread to stop. -/
def releasingWorld : World Nat :=
  ⟨[],true,true,false,true,0,[.waiting],[.releasing],[5],[5],[]⟩

theorem releasingWorld_reachable : Reachable 1 releasingWorld := by
  have h₁ := (Relation.ReflTransGen.refl : Reachable 1 (initial 1 : World Nat)).tail (.construct 0 rfl)
  have h₂ := h₁.tail (.constructWait 0 rfl rfl rfl)
  have h₃ := h₂.tail (.startThread 0 rfl)
  have h₄ := h₃.tail (.add 5)
  have h₅ := h₄.tail (.wake 0 rfl rfl)
  have h₆ := h₅.tail (.delete 0 5 [] rfl)
  have h₇ := h₆.tail (.drained 0 rfl)
  have h₈ := h₇.tail (.release 0 rfl)
  exact h₈.tail (.requestStop 0 rfl)

theorem releasingWorld_in_order :
    Reachable 1 releasingWorld ∧ releasingWorld.deleted ++ releasingWorld.abandoned ++
      inFlight releasingWorld.threads ++ releasingWorld.dlmanagedTensorsQueue = releasingWorld.added :=
  ⟨releasingWorld_reachable,deleted_in_add_order releasingWorld_reachable⟩

theorem releasingWorld_exit_drained :
    Reachable 1 releasingWorld ∧ releasingWorld.threads[0]? = some .waiting ∧
      (afterWait releasingWorld 0).threads[0]? = some .exiting ∧
      releasingWorld.dlmanagedTensorsQueue = [] ∧ releasingWorld.deleted ++ releasingWorld.abandoned = [5] :=
  ⟨releasingWorld_reachable,rfl,rfl,afterWait_exit_drained (k := 0) releasingWorld_reachable rfl rfl⟩

/-- Forked while it releases, the child's client never gets out of the busy wait of `release`. -/
theorem releasingWorld_child_stalls :
    Reachable 1 releasingWorld ∧ releasingWorld.isRunning = true ∧
      ∀ t, Relation.ReflTransGen Step (forkChild releasingWorld) t →
        t.clients[0]? = some .releasing ∧ t.deleted = [5] := by
  refine ⟨releasingWorld_reachable,rfl,fun t ht => ?_⟩
  have h := forked_child_stalls releasingWorld_reachable rfl ht
  exact ⟨(forked_child_stalls releasingWorld_reachable rfl .refl).2.2.2 0 .releasing t (.inr rfl) rfl ht,h.2.2.1⟩

/-- The first thread has written its flag and is still logging when the client, out of the busy
wait of `release`, constructs again and starts a second thread. -/
def restartedWorld : World Nat :=
  ⟨[],false,true,false,true,1,[.finished,.waiting],[.live],[],[],[]⟩

theorem restartedWorld_reachable : Reachable 1 restartedWorld := by
  have h₁ := (Relation.ReflTransGen.refl : Reachable 1 (initial 1 : World Nat)).tail (.construct 0 rfl)
  have h₂ := h₁.tail (.constructWait 0 rfl rfl rfl)
  have h₃ := h₂.tail (.startThread 0 rfl)
  have h₄ := h₃.tail (.release 0 rfl)
  have h₅ := h₄.tail (.requestStop 0 rfl)
  have h₆ := h₅.tail (.wake 0 rfl rfl)
  have h₇ := h₆.tail (.clearRunning 0 rfl)
  have h₈ := h₇.tail (.releaseWait 0 rfl rfl)
  have h₉ := h₈.tail (.clearStop 0 rfl)
  have h₁₀ := h₉.tail (.construct 0 rfl)
  have h₁₁ := h₁₀.tail (.constructWait 0 rfl rfl rfl)
  exact h₁₁.tail (.startThread 0 rfl)

/-- Two deleter threads at once, only one of them before its flag write. -/
theorem restartedWorld_two_threads :
    Reachable 1 restartedWorld ∧ restartedWorld.threads.length = 2 ∧
      restartedWorld.threads.countP Thread.active ≤ 1 ∧
      (restartedWorld.isRunning = false → restartedWorld.threads.countP Thread.active = 0) :=
  ⟨restartedWorld_reachable,rfl,one_deleter_before_flag_write restartedWorld_reachable⟩

def queuedWorld : World Nat :=
  ⟨[7,8],false,true,false,true,1,[.waiting],[.live],[7,8],[],[]⟩

theorem queuedWorld_drained :
    queuedWorld.threads = [.waiting] ∧ queuedWorld.cvDoNotWaitThread = false ∧
      ∃ t, Relation.ReflTransGen Step queuedWorld t ∧ t.threads = [.waiting] ∧ t.deleted = [7,8] ∧
        t.dlmanagedTensorsQueue = [] ∧ t.added = [7,8] :=
  ⟨rfl,rfl,deleter_drains_queue rfl rfl⟩

end HoloscanLowering.TensorDeleter
